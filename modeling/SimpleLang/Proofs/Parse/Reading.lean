import SimpleLang.Proofs.Outcome
import SimpleLang.Proofs.Parse.Phrase

/-!
# What a parser does at a place

A parser either gives a value and has passed over some tokens, or it gets stuck at a token that it
reports.  `Parser.Reading` says what is known of the tokens passed over in each case: they spell the
value, or they can still be completed to a phrase (`Phrase.Viable`).  There is one rule for each way
in which parsers are put together.

All places are those of a list that ends with the end of input (`Cursor.Terminated`), which no
parser passes.  So a parser that consumes a token has fewer of them left, and the bounds on loops
and on depth are never met.
-/

namespace SimpleLang

/-! ### Moving over tokens -/

namespace Cursor

variable {c c' c'' : Cursor} {ts us : List Token} {t : Token}

/-- The tokens that are not consumed. -/
def rest (c : Cursor) : List Token := c.current :: c.after

theorem length_rest (c : Cursor) : c.rest.length = c.remaining := rfl

theorem remaining_pos (c : Cursor) : 0 < c.remaining := Nat.succ_pos _

/-- The last token is the end of input. -/
def Terminated (c : Cursor) : Prop := ∃ t, c.rest.getLast? = some t ∧ t.kind = .eof

/-- Consuming `ts` leads from one place to another. -/
structure Passes (c : Cursor) (ts : List Token) (c' : Cursor) : Prop where
  /-- The tokens to come begin with `ts`. -/
  rest : c.rest = ts ++ c'.rest
  /-- Afterwards `ts` is behind. -/
  before : c'.before = ts.reverse ++ c.before
  /-- The file is the same. -/
  file : c'.file = c.file

namespace Passes

theorem refl (c : Cursor) : c.Passes [] c := ⟨rfl, rfl, rfl⟩

theorem trans (h : c.Passes ts c') (h' : c'.Passes us c'') : c.Passes (ts ++ us) c'' where
  rest := by rw [h.rest, h'.rest, List.append_assoc]
  before := by simp [h'.before, h.before]
  file := h'.file.trans h.file

theorem terminated (h : c.Passes ts c') (hc : c.Terminated) : c'.Terminated := by
  obtain ⟨t, ht, hk⟩ := hc
  refine ⟨t, ?_, hk⟩
  rw [h.rest] at ht
  simpa [Cursor.rest] using ht

theorem remaining_eq (h : c.Passes ts c') : c.remaining = ts.length + c'.remaining := by
  rw [← length_rest, h.rest, List.length_append, length_rest]

theorem remaining_le (h : c.Passes ts c') : c'.remaining ≤ c.remaining := by
  have := h.remaining_eq
  omega

theorem remaining_lt (h : c.Passes ts c') (hts : ts ≠ []) : c'.remaining < c.remaining := by
  have := h.remaining_eq
  have := List.length_pos_iff.2 hts
  omega

theorem index_eq (h : c.Passes ts c') : c'.index = c.index + ts.length := by
  simp [index, h.before, Nat.add_comm]

theorem lastPosition_eq (h : c.Passes (ts ++ [t]) c') : c'.lastPosition = t.span.stop := by
  simp [lastPosition, h.before]

theorem lastPosition_eq_stop (h : c.Passes [t] c') : c'.lastPosition = t.span.stop := by
  simp [lastPosition, h.before]

/-- The tokens between two places are the only ones there. -/
theorem unique (h : c.Passes ts c') (h' : c.Passes us c') : ts = us :=
  List.append_cancel_right (h.rest.symm.trans h'.rest)

theorem eq_of_nil (h : c.Passes [] c') : c = c' := by
  obtain ⟨hrest, hbefore, hfile⟩ := h
  cases c
  cases c'
  simp_all [Cursor.rest]

theorem current_eq (h : c.Passes (t :: ts) c') : c.current = t :=
  (List.cons.inj h.rest).1

theorem next_eq (h : c.Passes [t] c') : c.next = c' := by
  obtain ⟨hcurrent, hafter⟩ : c.current = t ∧ c.after = c'.rest := List.cons.inj h.rest
  have hbefore : c'.before = t :: c.before := h.before
  have hfile := h.file
  cases c'
  simp_all [next, Cursor.rest]

/-- What is consumed and the token after it were to come. -/
theorem begins (h : c.Passes ts c') : ts ++ [c'.current] <+: c.rest :=
  ⟨c'.after, by rw [h.rest, List.append_assoc]; rfl⟩

/-- The current token is the first one consumed, or the one after those. -/
theorem current_begins (h : c.Passes ts c') : [c.current] <+: ts ++ [c'.current] := by
  cases ts with
  | nil =>
    rw [h.eq_of_nil]
    exact List.prefix_refl _
  | cons t ts =>
    rw [h.current_eq]
    exact ⟨ts ++ [c'.current], rfl⟩

/-- Between two places there is one at every token. -/
theorem split (h : c.Passes (ts ++ us) c'') : ∃ c', c.Passes ts c' ∧ c'.Passes us c'' := by
  obtain ⟨v, vs, hvs⟩ : ∃ v vs, us ++ c''.rest = v :: vs :=
    List.exists_cons_of_ne_nil (by simp [Cursor.rest])
  refine ⟨⟨ts.reverse ++ c.before, v, vs, c.file⟩, ⟨?_, rfl, rfl⟩, ⟨hvs.symm, ?_, h.file⟩⟩
  · rw [h.rest, List.append_assoc, hvs]
    rfl
  · simp [h.before]

theorem split_cons (h : c.Passes (t :: us) c'') : ∃ c', c.Passes [t] c' ∧ c'.Passes us c'' :=
  split (show c.Passes ([t] ++ us) c'' from h)

end Passes

/-- Before the end of input there is a next place. -/
theorem Terminated.passes_next (hc : c.Terminated) (hk : c.current.kind ≠ .eof) :
    c.Passes [c.current] c.next := by
  obtain ⟨t, ht, hkind⟩ := hc
  cases hafter : c.after with
  | nil =>
    simp only [rest, hafter, List.getLast?_singleton, Option.some.injEq] at ht
    exact absurd (ht ▸ hkind) hk
  | cons u us =>
    simp only [next, hafter]
    exact ⟨by simp [rest, hafter], rfl, rfl⟩

/-! ### The beginning of a list -/

variable (file : String) (tokens : List Token)

theorem getLast?_terminate :
    ∃ t, (terminate file tokens).getLast? = some t ∧ t.kind = .eof := by
  unfold terminate
  split
  · rename_i h
    simpa using h
  · exact ⟨_, List.getLast?_concat, rfl⟩

theorem rest_start : (start file tokens).rest = terminate file tokens := by
  obtain ⟨t, ht, -⟩ := getLast?_terminate file tokens
  unfold start
  cases h : terminate file tokens with
  | nil => simp [h] at ht
  | cons => rfl

theorem start_terminated : (start file tokens).Terminated := by
  unfold Terminated
  rw [rest_start]
  exact getLast?_terminate file tokens

theorem start_before : (start file tokens).before = [] := by
  unfold start
  split <;> rfl

theorem start_file : (start file tokens).file = file := by
  unfold start
  split <;> rfl

/-- A list that ends with the end of input is left as it is. -/
theorem terminate_append {e : Token} (he : e.kind = .eof) :
    terminate file (tokens ++ [e]) = tokens ++ [e] := by
  simp [terminate, he]

end Cursor

/-! ### Diagnostics about a token -/

/-- The text of the token that a problem is about. -/
def Problem.token? : Problem → Option String
  | .unrecognisedToken token | .unexpectedToken token | .unexpectedTokenDetailed token _
  | .numberParseError token => some token
  | _ => none

/-- The diagnostic reports a token, where it starts. -/
structure Diagnostic.About (d : Diagnostic) (t : Token) : Prop where
  /-- It gives the token's text. -/
  text : d.problem.token? = some t.text
  /-- It gives the token's start. -/
  position : d.position = t.span.start

namespace Phrase

variable {α : Type} {L : List Token → α → Prop} {ts : List Token}

/-- The tokens can be completed to a phrase. -/
def Viable (L : List Token → α → Prop) (ts : List Token) : Prop := ∃ us a, L (ts ++ us) a

theorem Viable.of_phrase {a : α} (h : L ts a) : Viable L ts := ⟨[], a, by simpa using h⟩

/-- Phrases divided by commas up to a closing bracket. -/
inductive Closed (L : List Token → α → Prop) : List Token → List α → Prop
  | mk {ts : List Token} {as : List α} {c : Token} :
    Separated L ts as → c.kind = .closeParen → Closed L (ts ++ [c]) as

/-- Some token of a kind, for completing what was read. -/
def filler (kind : TokenKind) : Token := ⟨kind, "", ⟨⟨0, ""⟩, ⟨0, ""⟩⟩⟩

@[simp] theorem filler_kind (kind : TokenKind) : (filler kind).kind = kind := rfl

end Phrase

namespace Parser

open Phrase

/-! ### Steps of a parser -/

section Steps

variable {c c' : Cursor} {t : Token} {kind : TokenKind}

theorem peek_eq (c : Cursor) : peek c = .ok c.current c := rfl

theorem peekKind_eq (c : Cursor) : peekKind c = .ok c.current.kind c := rfl

theorem position_eq (c : Cursor) : position c = .ok c.current.span.start c := rfl

theorem lastPosition_eq (c : Cursor) : lastPosition c = .ok c.lastPosition c := rfl

theorem advance_eq (h : c.Passes [t] c') : advance c = .ok t c' := by
  rw [← h.current_eq, ← h.next_eq]
  rfl

theorem expectOr_eq {otherwise : Parser Token} (h : c.Passes [t] c') (ht : t.kind = kind) :
    expectOr kind otherwise c = .ok t c' := by
  have hk : c.current.kind = kind := h.current_eq ▸ ht
  rw [expectOr, bind_of_ok (peekKind_eq c), if_pos hk, advance_eq h]

theorem expect_eq (h : c.Passes [t] c') (ht : t.kind = kind) : expect kind c = .ok t c' :=
  expectOr_eq h ht

end Steps

/-! ### Outcomes -/

variable {α β : Type} {c : Cursor} {P P' : List Token → α → Cursor → Prop}
  {R : List Token → β → Cursor → Prop} {Q Q' : List Token → Prop} {kind : TokenKind}

/-- The outcome of a parser at `c`: it has read tokens that satisfy `P` together with the value and
the place reached, or it is stuck after tokens that satisfy `Q`, with a diagnostic about the token
it is stuck at. -/
inductive Reading (c : Cursor) (P : List Token → α → Cursor → Prop) (Q : List Token → Prop) :
    EStateM.Result Diagnostic Cursor α → Prop
  | read {ts : List Token} {a : α} {c' : Cursor} :
    c.Passes ts c' → P ts a c' → Reading c P Q (.ok a c')
  | stuck {ts : List Token} {d : Diagnostic} {c' : Cursor} :
    c.Passes ts c' → d.About c'.current → Q ts → Reading c P Q (.error d c')

namespace Reading

theorem imp {r : EStateM.Result Diagnostic Cursor α} (h : Reading c P Q r)
    (hP : ∀ ts a c', c.Passes ts c' → P ts a c' → P' ts a c') (hQ : ∀ ts, Q ts → Q' ts) :
    Reading c P' Q' r := by
  cases h with
  | read hpass ha => exact .read hpass (hP _ _ _ hpass ha)
  | stuck hpass hd hts => exact .stuck hpass hd (hQ _ hts)

theorem pure {a : α} (h : P [] a c) : Reading c P Q ((Pure.pure a : Parser α) c) :=
  .read (.refl c) h

/-- One parser after another. -/
theorem bind {x : Parser β} {f : β → Parser α} (hx : Reading c R Q' (x c))
    (hQ : ∀ ts, Q' ts → Q ts)
    (hf : ∀ ts b c', c.Passes ts c' → R ts b c' →
      Reading c' (fun us => P (ts ++ us)) (fun us => Q (ts ++ us)) (f b c')) :
    Reading c P Q ((x >>= f) c) := by
  change Reading c P Q (EStateM.bind x f c)
  unfold EStateM.bind
  generalize x c = r at hx
  cases hx with
  | stuck hpass hd hts => exact .stuck hpass hd (hQ _ hts)
  | @read ts b c' hpass hb =>
    have hrun := hf ts b c' hpass hb
    dsimp only
    generalize f b c' = r' at hrun
    cases hrun with
    | read hpass' ha => exact .read (hpass.trans hpass') ha
    | stuck hpass' hd hts => exact .stuck (hpass.trans hpass') hd hts

theorem unexpected (h : Q []) : Reading c P Q (Parser.unexpected c) :=
  .stuck (.refl c) ⟨rfl, rfl⟩ h

theorem complain (message : String) (h : Q []) : Reading c P Q (Parser.complain message c) :=
  .stuck (.refl c) ⟨rfl, rfl⟩ h

theorem peekKind {f : TokenKind → Parser α} (h : Reading c P Q (f c.current.kind c)) :
    Reading c P Q ((Parser.peekKind >>= f) c) := h

theorem lastPosition {f : Position → Parser α} (h : Reading c P Q (f c.lastPosition c)) :
    Reading c P Q ((Parser.lastPosition >>= f) c) := h

/-- Consuming a token that is not the end of input. -/
theorem advance {f : Token → Parser α} (hc : c.Terminated) (hk : c.current.kind ≠ .eof)
    (hf : ∀ c', c'.Terminated → c.Passes [c.current] c' →
      Reading c' (fun us => P (c.current :: us)) (fun us => Q (c.current :: us))
        (f c.current c')) :
    Reading c P Q ((Parser.advance >>= f) c) := by
  have hpass := hc.passes_next hk
  have hadvance : Reading c (fun ts t c' => ts = [t] ∧ t = c.current ∧ c' = c.next)
      (fun _ => False) (Parser.advance c) := .read hpass ⟨rfl, rfl, rfl⟩
  refine hadvance.bind (fun _ h => h.elim) ?_
  rintro _ _ _ - ⟨rfl, rfl, rfl⟩
  exact hf _ (hpass.terminated hc) hpass

/-- Consuming a token of a kind. -/
theorem expectOr {otherwise : Parser Token} {f : Token → Parser α} (hc : c.Terminated)
    (hkind : kind ≠ .eof) (hstuck : Reading c P Q ((otherwise >>= f) c))
    (hf : ∀ t c', c'.Terminated → c.Passes [t] c' → t.kind = kind →
      Reading c' (fun us => P (t :: us)) (fun us => Q (t :: us)) (f t c')) :
    Reading c P Q ((Parser.expectOr kind otherwise >>= f) c) := by
  unfold Parser.expectOr
  rw [bind_assoc]
  refine peekKind ?_
  split
  · rename_i h
    exact advance hc (h ▸ hkind) fun c' hc' hpass => hf _ c' hc' hpass h
  · exact hstuck

theorem expect {f : Token → Parser α} (hc : c.Terminated) (hkind : kind ≠ .eof) (hQ : Q [])
    (hf : ∀ t c', c'.Terminated → c.Passes [t] c' → t.kind = kind →
      Reading c' (fun us => P (t :: us)) (fun us => Q (t :: us)) (f t c')) :
    Reading c P Q ((Parser.expect kind >>= f) c) :=
  expectOr hc hkind (.stuck (.refl c) ⟨rfl, rfl⟩ hQ) hf

end Reading

/-! ### Lists -/

variable {L : List Token → α → Prop} {item : Parser α} {test : TokenKind → Bool}

/-- Reading items as long as a test is passed gives a sequence of them, up to a token that does not
pass. -/
theorem manyWithin_reading (hne : ∀ ts a, L ts a → ts ≠ []) {N : Nat}
    (hitem : ∀ c : Cursor, c.Terminated → c.remaining ≤ N → test c.current.kind = true →
      Reading c (fun ts a _ => L ts a) (Viable L) (item c)) :
    ∀ (n : Nat) (c : Cursor), c.Terminated → c.remaining ≤ N → c.remaining ≤ n →
      Reading c (fun ts as c' => Sequence L ts as ∧ test c'.current.kind = false)
        (Viable (Sequence L)) (manyWithin test item n c) := by
  intro n
  induction n with
  | zero =>
    intro c _ _ hn
    exact absurd c.remaining_pos (by omega)
  | succ n ih =>
    intro c hc hN hn
    refine Reading.peekKind ?_
    by_cases htest : test c.current.kind = true
    · rw [if_pos htest]
      refine (hitem c hc hN htest).bind ?_ fun ts a c' hpass ha => ?_
      · rintro ts ⟨us, a, ha⟩
        exact ⟨us, [a], by simpa using Sequence.cons ha .nil⟩
      · have hlt := hpass.remaining_lt (hne ts a ha)
        refine (ih c' (hpass.terminated hc) (by omega) (by omega)).bind ?_ ?_
        · rintro us ⟨vs, as, has⟩
          exact ⟨vs, a :: as, by simpa using Sequence.cons ha has⟩
        · rintro us as c'' - ⟨has, hend⟩
          exact .pure ⟨by simpa using Sequence.cons ha has, hend⟩
    · rw [if_neg htest]
      exact .pure ⟨.nil, by simpa using htest⟩

theorem many_reading (hne : ∀ ts a, L ts a → ts ≠ []) (hc : c.Terminated)
    (hitem : ∀ c' : Cursor, c'.Terminated → c'.remaining ≤ c.remaining →
      test c'.current.kind = true → Reading c' (fun ts a _ => L ts a) (Viable L) (item c')) :
    Reading c (fun ts as c' => Sequence L ts as ∧ test c'.current.kind = false)
      (Viable (Sequence L)) (many test item c) :=
  manyWithin_reading hne hitem c.remaining c hc (Nat.le_refl _) (Nat.le_refl _)

/-- Reading a list with commas up to a closing bracket. -/
theorem commaList_reading (hc : c.Terminated)
    (hitem : ∀ c' : Cursor, c'.Terminated → c'.remaining ≤ c.remaining →
      Reading c' (fun ts a _ => L ts a) (Viable L) (item c')) :
    Reading c (fun ts as _ => Closed L ts as) (Viable (Closed L)) (commaList item c) := by
  have hafter : ∀ c' : Cursor, c'.Terminated → c'.remaining ≤ c.remaining →
      (c'.current.kind == .comma) = true →
      Reading c' (fun ts a _ => AfterComma L ts a) (Viable (AfterComma L))
        ((do let _ ← advance; item : Parser α) c') := by
    intro c' hc' hle hcomma
    have hk : c'.current.kind = .comma := by simpa using hcomma
    refine Reading.advance hc' (by simp [hk]) fun c'' hc'' hpass => ?_
    refine (hitem c'' hc'' (Nat.le_trans hpass.remaining_le hle)).imp
      (fun _ _ _ _ ha => .mk hk ha) ?_
    rintro us ⟨vs, a, ha⟩
    exact ⟨vs, a, .mk hk ha⟩
  have hviable : ∀ {ts as}, Separated L ts as → Viable (Closed L) ts := fun has =>
    ⟨[filler .closeParen], _, .mk has rfl⟩
  have hclose : ∀ {ts as c'}, c.Passes ts c' → Separated L ts as →
      Reading c' (fun us bs _ => Closed L (ts ++ us) bs) (fun us => Viable (Closed L) (ts ++ us))
        ((do let _ ← expect .closeParen; pure as : Parser (List α)) c') := by
    intro ts as c' hpass has
    refine Reading.expect (hpass.terminated hc) (by decide) ?_ fun t c'' _ _ ht => .pure ?_
    · simpa using hviable has
    · exact .mk has ht
  refine Reading.peekKind ?_
  split
  · exact hclose (.refl c) .none
  · refine (hitem c hc (Nat.le_refl _)).bind ?_ fun ts a c' hpass ha => ?_
    · rintro ts ⟨us, a, ha⟩
      refine ⟨us ++ [filler .closeParen], [a], ?_⟩
      simpa using Closed.mk (Separated.some ha .nil) (filler_kind .closeParen)
    · refine (many_reading (L := AfterComma L) (fun _ _ ⟨_, _⟩ => List.cons_ne_nil _ _)
        (hpass.terminated hc) fun c'' hc'' hle =>
          hafter c'' hc'' (Nat.le_trans hle hpass.remaining_le)).bind ?_ ?_
      · rintro us ⟨vs, as, has⟩
        refine ⟨vs ++ [filler .closeParen], a :: as, ?_⟩
        simpa using Closed.mk (Separated.some ha has) (filler_kind .closeParen)
      · rintro us as c'' hpass' ⟨has, -⟩
        simpa only [List.append_assoc, pure_bind] using
          hclose (hpass.trans hpass') (Separated.some ha has)

end Parser

end SimpleLang
