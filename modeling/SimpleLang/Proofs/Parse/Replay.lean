import SimpleLang.Proofs.Parse.Sound

/-!
# The same tokens elsewhere

What a parser does is decided by the tokens it consumes and the one it stops at.  Wherever the
tokens to come begin with these, be they at other places, the parser does the same there, with its
value or its diagnostic moved to these places (`Parser.program_replays`).

In `Parser.Replays ρ F m y c r`, the outcome `r` is that of some parser at `c`, and `y` is the
parser that comes to the same outcome elsewhere.  They are mostly the same parser, but the bounds on
loops and depth differ with the number of tokens to come; `m` bounds that number for the other
places.
-/

namespace SimpleLang

/-! ### Places with the same tokens to come -/

namespace Cursor

variable {ρ : Relocation} {c c' d d' : Cursor} {ts us : List Token} {t : Token}

/-- At `d`, the tokens to come begin with `ts` and the last token ended where it did at `c`, both
moved by `ρ`. -/
structure Echoes (ρ : Relocation) (c : Cursor) (ts : List Token) (d : Cursor) : Prop where
  /-- The list ends with the end of input. -/
  terminated : d.Terminated
  /-- The tokens to come begin with `ts`. -/
  rest : ts.map (Token.relocate ρ) <+: d.rest
  /-- The last token ended at the same place. -/
  lastPosition : d.lastPosition = ρ.stop c.lastPosition

namespace Echoes

theorem mono (h : Echoes ρ c ts d) (hus : us <+: ts) : Echoes ρ c us d :=
  ⟨h.terminated, (hus.map _).trans h.rest, h.lastPosition⟩

theorem current_eq (h : Echoes ρ c (t :: ts) d) : d.current = t.relocate ρ :=
  (List.cons_prefix_cons.1 h.rest).1.symm

/-- What is consumed and the token after it begin with the current token. -/
theorem head (h : Echoes ρ c (ts ++ [c'.current]) d) (hpass : c.Passes ts c') :
    d.current = c.current.relocate ρ :=
  (h.mono hpass.current_begins).current_eq

/-- The same tokens are consumed at both places. -/
theorem after (h : Echoes ρ c (ts ++ us) d) (hpass : c.Passes ts c')
    (hpass' : d.Passes (ts.map (Token.relocate ρ)) d') : Echoes ρ c' us d' where
  terminated := hpass'.terminated h.terminated
  rest := by
    have hrest := h.rest
    rw [hpass'.rest, List.map_append] at hrest
    exact (List.prefix_append_right_inj _).1 hrest
  lastPosition := by
    rcases List.eq_nil_or_concat ts with rfl | ⟨vs, t, rfl⟩
    · rw [← hpass.eq_of_nil, ← hpass'.eq_of_nil, h.lastPosition]
    · rw [List.concat_eq_append] at hpass hpass'
      rw [List.map_append, List.map_singleton] at hpass'
      rw [hpass.lastPosition_eq, hpass'.lastPosition_eq]
      rfl

end Echoes

end Cursor

namespace Parser

open Cursor

variable {α β γ δ : Type} {ρ : Relocation} {F : α → β} {G : γ → δ} {m : Nat} {c : Cursor}

/-- The outcome at `c` is also that of `y` where at most `m` tokens are to come and they begin with
those consumed and the one after them. -/
inductive Replays (ρ : Relocation) (F : α → β) (m : Nat) (y : Parser β) (c : Cursor) :
    EStateM.Result Diagnostic Cursor α → Prop
  | read {ts : List Token} {a : α} {c' : Cursor} : c.Passes ts c' →
    (∀ d, d.remaining ≤ m → Echoes ρ c (ts ++ [c'.current]) d →
      ∃ d', d.Passes (ts.map (Token.relocate ρ)) d' ∧ y d = .ok (F a) d') →
    Replays ρ F m y c (.ok a c')
  | stuck {ts : List Token} {e : Diagnostic} {c' : Cursor} : c.Passes ts c' →
    (∀ d, d.remaining ≤ m → Echoes ρ c (ts ++ [c'.current]) d →
      ∃ d', d.Passes (ts.map (Token.relocate ρ)) d' ∧ y d = .error (e.relocate ρ) d') →
    Replays ρ F m y c (.error e c')

namespace Replays

variable {y : Parser β} {r : EStateM.Result Diagnostic Cursor α}

/-- Whatever `y` does where this can be the case. -/
theorem congr {y' : Parser β} {n : Nat} (h : Replays ρ F m y c r) (hnm : n ≤ m)
    (hy : ∀ d, d.Terminated → d.remaining ≤ n → d.current = c.current.relocate ρ →
      d.lastPosition = ρ.stop c.lastPosition → y' d = y d) :
    Replays ρ F n y' c r := by
  cases h with
  | read hpass hreplay =>
    refine .read hpass fun d hd hecho => ?_
    rw [hy d hecho.terminated hd (hecho.head hpass) hecho.lastPosition]
    exact hreplay d (Nat.le_trans hd hnm) hecho
  | stuck hpass hreplay =>
    refine .stuck hpass fun d hd hecho => ?_
    rw [hy d hecho.terminated hd (hecho.head hpass) hecho.lastPosition]
    exact hreplay d (Nat.le_trans hd hnm) hecho

theorem mono {n : Nat} (h : Replays ρ F m y c r) (hnm : n ≤ m) : Replays ρ F n y c r :=
  h.congr hnm fun _ _ _ _ _ => rfl

/-- A bound is never zero where a token is to come. -/
theorem of_succ {g : Nat → Parser β} {k : Nat} (hk : m ≤ k)
    (h : ∀ k, m ≤ k + 1 → Replays ρ F m (g (k + 1)) c r) : Replays ρ F m (g k) c r := by
  cases k with
  | succ k => exact h k hk
  | zero =>
    exact (h 0 (by omega)).congr (Nat.le_refl m) fun d _ hd _ _ =>
      absurd d.remaining_pos (by omega)

theorem remaining_le {a : α} {c' : Cursor} (h : Replays ρ F m y c (.ok a c')) :
    c'.remaining ≤ c.remaining := by
  cases h with
  | read hpass _ => exact hpass.remaining_le

theorem pure {a : α} : Replays ρ F m (Pure.pure (F a)) c ((Pure.pure a : Parser α) c) :=
  .read (.refl c) fun d _ _ => ⟨d, .refl d, rfl⟩

theorem pure_of_eq {a : α} {b : β} (h : b = F a) :
    Replays ρ F m (Pure.pure b) c ((Pure.pure a : Parser α) c) :=
  h ▸ pure

/-- One parser after another. -/
theorem bind {x : Parser α} {f : α → Parser γ} {g : β → Parser δ} (hx : Replays ρ F m y c (x c))
    (hf : ∀ ts a c', c.Passes ts c' → x c = .ok a c' →
      Replays ρ G (m - ts.length) (g (F a)) c' (f a c')) :
    Replays ρ G m (y >>= g) c ((x >>= f) c) := by
  change Replays ρ G m (y >>= g) c (EStateM.bind x f c)
  unfold EStateM.bind
  generalize hr : x c = r at hx
  cases hx with
  | stuck hpass hreplay =>
    refine .stuck hpass fun d hd hecho => ?_
    obtain ⟨d', hpass', hy⟩ := hreplay d hd hecho
    exact ⟨d', hpass', bind_of_error hy⟩
  | @read ts a c₁ hpass hreplay =>
    have hrun := hf ts a c₁ hpass hr
    dsimp only
    generalize f a c₁ = r' at hrun
    -- the two runs of the first parser lead to places with the same tokens to come
    have hfirst : ∀ {us c₂}, c₁.Passes us c₂ → ∀ d, d.remaining ≤ m →
        Echoes ρ c (ts ++ us ++ [c₂.current]) d →
        ∃ d₁, d.Passes (ts.map (Token.relocate ρ)) d₁ ∧ d₁.remaining ≤ m - ts.length ∧
          Echoes ρ c₁ (us ++ [c₂.current]) d₁ ∧ (y >>= g) d = g (F a) d₁ := by
      intro us c₂ hpass₂ d hd hecho
      rw [List.append_assoc] at hecho
      have hnext : ts ++ [c₁.current] <+: ts ++ (us ++ [c₂.current]) :=
        (List.prefix_append_right_inj ts).2 hpass₂.current_begins
      obtain ⟨d₁, hpass', hy⟩ := hreplay d hd (hecho.mono hnext)
      have hlength := hpass'.remaining_eq
      rw [List.length_map] at hlength
      exact ⟨d₁, hpass', by omega, hecho.after hpass hpass', bind_of_ok hy⟩
    cases hrun with
    | read hpass₂ hreplay₂ =>
      refine .read (hpass.trans hpass₂) fun d hd hecho => ?_
      obtain ⟨d₁, hpass₁, hm, hecho₁, heq⟩ := hfirst hpass₂ d hd hecho
      obtain ⟨d₂, hpass', hg⟩ := hreplay₂ d₁ hm hecho₁
      exact ⟨d₂, by simpa using hpass₁.trans hpass', heq.trans hg⟩
    | stuck hpass₂ hreplay₂ =>
      refine .stuck (hpass.trans hpass₂) fun d hd hecho => ?_
      obtain ⟨d₁, hpass₁, hm, hecho₁, heq⟩ := hfirst hpass₂ d hd hecho
      obtain ⟨d₂, hpass', hg⟩ := hreplay₂ d₁ hm hecho₁
      exact ⟨d₂, by simpa using hpass₁.trans hpass', heq.trans hg⟩

theorem unexpected : Replays ρ F m Parser.unexpected c (Parser.unexpected c) := by
  refine .stuck (.refl c) fun d _ hecho => ⟨d, .refl d, ?_⟩
  have hd := hecho.head (.refl c)
  change EStateM.Result.error (⟨.unexpectedToken d.current.text, d.current.span.start⟩ :
    Diagnostic) d = _
  rw [hd]
  rfl

theorem complain (message : String) :
    Replays ρ F m (Parser.complain message) c (Parser.complain message c) := by
  refine .stuck (.refl c) fun d _ hecho => ⟨d, .refl d, ?_⟩
  have hd := hecho.head (.refl c)
  change EStateM.Result.error (⟨.unexpectedTokenDetailed d.current.text message,
    d.current.span.start⟩ : Diagnostic) d = _
  rw [hd]
  rfl

/-- What comes after a complaint does not matter. -/
theorem complain_bind (message : String) {f : γ → Parser α} {g : δ → Parser β} :
    Replays ρ F m (Parser.complain message >>= g) c ((Parser.complain message >>= f) c) := by
  have hcomplain := Replays.complain (ρ := ρ) (m := m) (c := c) (F := F) message
  cases hcomplain with
  | stuck hpass hreplay => exact .stuck hpass hreplay

theorem peekKind {f : TokenKind → Parser α} {g : TokenKind → Parser β}
    (h : Replays ρ F m (g c.current.kind) c (f c.current.kind c)) :
    Replays ρ F m (Parser.peekKind >>= g) c ((Parser.peekKind >>= f) c) :=
  h.congr (Nat.le_refl m) fun d _ _ hd _ => by
    rw [bind_of_ok (peekKind_eq d), hd, Token.relocate_kind]

theorem position {f : Position → Parser α} {g : Position → Parser β}
    (h : Replays ρ F m (g (ρ.start c.current.span.start)) c (f c.current.span.start c)) :
    Replays ρ F m (Parser.position >>= g) c ((Parser.position >>= f) c) :=
  h.congr (Nat.le_refl m) fun d _ _ hd _ => by
    rw [bind_of_ok (position_eq d), hd]
    rfl

theorem lastPosition {f : Position → Parser α} {g : Position → Parser β}
    (h : Replays ρ F m (g (ρ.stop c.lastPosition)) c (f c.lastPosition c)) :
    Replays ρ F m (Parser.lastPosition >>= g) c ((Parser.lastPosition >>= f) c) :=
  h.congr (Nat.le_refl m) fun d _ _ _ hd => by
    rw [bind_of_ok (lastPosition_eq d), hd]

/-- A bound on a loop or on depth is taken from the tokens to come. -/
theorem remaining {g : Nat → Parser β} (h : ∀ n, n ≤ m → Replays ρ F n (g n) c r) :
    Replays ρ F m (do g (← get).remaining) c r := by
  have hm := h m (Nat.le_refl m)
  cases hm with
  | read hpass _ =>
    refine .read hpass fun d hd hecho => ?_
    cases h d.remaining hd with
    | read hpass' hreplay =>
      obtain rfl := hpass.unique hpass'
      exact hreplay d (Nat.le_refl _) hecho
  | stuck hpass _ =>
    refine .stuck hpass fun d hd hecho => ?_
    cases h d.remaining hd with
    | stuck hpass' hreplay =>
      obtain rfl := hpass.unique hpass'
      exact hreplay d (Nat.le_refl _) hecho

/-- Consuming a token that is not the end of input. -/
theorem advance {f : Token → Parser α} {g : Token → Parser β} (hc : c.Terminated)
    (hk : c.current.kind ≠ .eof)
    (hf : ∀ c', c'.Terminated → c.Passes [c.current] c' →
      Replays ρ F (m - 1) (g (c.current.relocate ρ)) c' (f c.current c')) :
    Replays ρ F m (Parser.advance >>= g) c ((Parser.advance >>= f) c) := by
  have hpass := hc.passes_next hk
  have hadvance : Replays ρ (Token.relocate ρ) m Parser.advance c (Parser.advance c) := by
    refine .read hpass fun d _ hecho => ?_
    have hd := hecho.head hpass
    refine ⟨d.next, ?_, ?_⟩
    · rw [List.map_singleton, ← hd]
      exact hecho.terminated.passes_next (by rwa [hd, Token.relocate_kind])
    · rw [← hd]
      rfl
  refine hadvance.bind fun ts t c' hpass' hok => ?_
  obtain ⟨rfl, rfl⟩ : c.current = t ∧ c.next = c' := by
    change EStateM.Result.ok c.current c.next = .ok t c' at hok
    cases hok
    exact ⟨rfl, rfl⟩
  obtain rfl := hpass.unique hpass'
  exact hf _ (hpass.terminated hc) hpass

/-- Consuming a token of a kind. -/
theorem expectOr {kind : TokenKind} {otherwise otherwise' : Parser Token} {f : Token → Parser α}
    {g : Token → Parser β} (hc : c.Terminated) (hkind : kind ≠ .eof)
    (hstuck : Replays ρ F m (otherwise' >>= g) c ((otherwise >>= f) c))
    (hf : ∀ t c', c'.Terminated → c.Passes [t] c' →
      Replays ρ F (m - 1) (g (t.relocate ρ)) c' (f t c')) :
    Replays ρ F m (Parser.expectOr kind otherwise' >>= g) c
      ((Parser.expectOr kind otherwise >>= f) c) := by
  unfold Parser.expectOr
  rw [bind_assoc, bind_assoc]
  refine peekKind ?_
  split
  · rename_i h
    exact advance hc (h ▸ hkind) fun c' hc' hpass => hf _ c' hc' hpass
  · exact hstuck

theorem expect {kind : TokenKind} {f : Token → Parser α} {g : Token → Parser β}
    (hc : c.Terminated) (hkind : kind ≠ .eof)
    (hf : ∀ t c', c'.Terminated → c.Passes [t] c' →
      Replays ρ F (m - 1) (g (t.relocate ρ)) c' (f t c')) :
    Replays ρ F m (Parser.expect kind >>= g) c ((Parser.expect kind >>= f) c) :=
  expectOr hc hkind (Replays.bind (F := Token.relocate ρ) unexpected fun _ _ _ _ h => by cases h) hf

end Replays

/-! ### Lists -/

variable {item : Parser α} {item' : Parser β} {test : TokenKind → Bool} {M N : Nat}

/-- Loops over items that each consume a token. -/
theorem manyWithin_replays
    (hitem : ∀ c : Cursor, c.Terminated → c.remaining ≤ N → test c.current.kind = true →
      Replays ρ F M item' c (item c))
    (hprogress : ∀ (c c' : Cursor) (a : α), c.Terminated → c.remaining ≤ N →
      test c.current.kind = true → item c = .ok a c' → c'.remaining < c.remaining) :
    ∀ (n k m : Nat) (c : Cursor), c.Terminated → c.remaining ≤ N → c.remaining ≤ n → m ≤ k →
      m ≤ M →
      Replays ρ (List.map F) m (manyWithin test item' k) c (manyWithin test item n c) := by
  intro n
  induction n with
  | zero =>
    intro k m c _ _ hn
    exact absurd c.remaining_pos (by omega)
  | succ n ih =>
    intro k m c hc hN hn hk hM
    refine Replays.of_succ hk fun k hk => Replays.peekKind ?_
    split
    · rename_i htest
      refine ((hitem c hc hN htest).mono hM).bind fun ts a c' hpass hok => ?_
      have hlt := hprogress c c' a hc hN htest hok
      have hlength := hpass.remaining_eq
      refine (ih k (m - ts.length) c' (hpass.terminated hc) (by omega) (by omega) (by omega)
        (by omega)).bind fun _ as c'' _ _ => ?_
      exact Replays.pure (F := List.map F) (a := a :: as)
    · exact Replays.pure (F := List.map F) (a := [])

theorem many_replays (hc : c.Terminated)
    (hitem : ∀ c' : Cursor, c'.Terminated → c'.remaining ≤ c.remaining →
      test c'.current.kind = true → Replays ρ F m item' c' (item c'))
    (hprogress : ∀ (c' c'' : Cursor) (a : α), c'.Terminated → c'.remaining ≤ c.remaining →
      test c'.current.kind = true → item c' = .ok a c'' → c''.remaining < c'.remaining) :
    Replays ρ (List.map F) m (many test item') c (many test item c) :=
  Replays.remaining fun n hn =>
    manyWithin_replays hitem hprogress c.remaining n n c hc (Nat.le_refl _) (Nat.le_refl _)
      (Nat.le_refl n) hn

theorem commaList_replays (hc : c.Terminated)
    (hitem : ∀ c' : Cursor, c'.Terminated → c'.remaining ≤ c.remaining →
      Replays ρ F m item' c' (item c')) :
    Replays ρ (List.map F) m (commaList item') c (commaList item c) := by
  have hafter : ∀ c' : Cursor, c'.Terminated → c'.remaining ≤ c.remaining →
      (c'.current.kind == .comma) = true →
      Replays ρ F m (do let _ ← advance; item' : Parser β) c'
        ((do let _ ← advance; item : Parser α) c') := by
    intro c' hc' hle hcomma
    have hk : c'.current.kind ≠ .eof := fun h => by simp [h] at hcomma
    refine Replays.advance hc' hk fun c'' hc'' hpass => ?_
    exact (hitem c'' hc'' (Nat.le_trans hpass.remaining_le hle)).mono (Nat.sub_le m 1)
  have hprogress : ∀ (c' c'' : Cursor) (a : α), c'.Terminated → c'.remaining ≤ c.remaining →
      (c'.current.kind == .comma) = true → (do let _ ← advance; item : Parser α) c' = .ok a c'' →
      c''.remaining < c'.remaining := by
    intro c' c'' a hc' hle hcomma hok
    have hk : c'.current.kind ≠ .eof := fun h => by simp [h] at hcomma
    have hpass := hc'.passes_next hk
    have hlt := hpass.remaining_lt (by simp)
    have hreplay := hitem c'.next (hpass.terminated hc') (by omega)
    rw [show item c'.next = .ok a c'' from hok] at hreplay
    exact Nat.lt_of_le_of_lt hreplay.remaining_le hlt
  have hclose : ∀ (n : Nat) (as : List α) (c' : Cursor), c'.Terminated →
      Replays ρ (List.map F) n (do let _ ← expect .closeParen; pure (as.map F) : Parser (List β)) c'
        ((do let _ ← expect .closeParen; pure as : Parser (List α)) c') := fun n as c' hc' =>
    Replays.expect hc' (by decide) fun _ _ _ _ => Replays.pure (F := List.map F)
  refine Replays.peekKind ?_
  split
  · exact hclose m [] c hc
  · refine (hitem c hc (Nat.le_refl _)).bind fun ts a c' hpass _ => ?_
    have hle := hpass.remaining_le
    refine (many_replays (hpass.terminated hc)
      (fun c'' hc'' hle' h => (hafter c'' hc'' (Nat.le_trans hle' hle) h).mono (Nat.sub_le m _))
      fun c₁ c₂ b hc₁ hle' => hprogress c₁ c₂ b hc₁ (Nat.le_trans hle' hle)).bind
        fun us as c'' hpass' _ => ?_
    have hc'' := (hpass.trans hpass').terminated hc
    simpa only [pure_bind, List.map_cons] using hclose _ (a :: as) c'' hc''

/-! ### Expressions -/

open Grammar

variable {E E' : Power → Parser Expr} {S S' : Parser Stmt} {power p : Power} {left : Expr}

theorem atom_relocate (ρ : Relocation) (t : Token) : (t.relocate ρ).atom =
    match t.atom with
    | .ok e => .ok (e.relocate ρ)
    | .error d => .error (d.relocate ρ) := by
  obtain ⟨kind, text, span⟩ := t
  cases kind
  case number => simp only [Token.relocate, Token.atom]; cases Text.readInt64? text <;> rfl
  all_goals rfl

/-- What is read passes over the tokens that it is made of. -/
theorem Reading.remaining_lt {P : List Token → α → Cursor → Prop} {Q : List Token → Prop}
    {x : Parser α} {a : α} {c' : Cursor} (h : Reading c P Q (x c)) (hok : x c = .ok a c')
    (hne : ∀ ts, P ts a c' → ts ≠ []) : c'.remaining < c.remaining := by
  rw [hok] at h
  cases h with
  | read hpass ha => exact hpass.remaining_lt (hne _ ha)

theorem primary_replays (hc : c.Terminated) :
    Replays ρ (Expr.relocate ρ) m primary c (primary c) := by
  rw [primary_eq]
  cases hatom : c.current.atom with
  | ok e =>
    have hk := (expression_of_atom hatom).1
    have hpass := hc.passes_next hk
    refine .read hpass fun d _ hecho => ?_
    have hd := hecho.head hpass
    refine ⟨d.next, ?_, ?_⟩
    · rw [List.map_singleton, ← hd]
      exact hecho.terminated.passes_next (by rwa [hd, Token.relocate_kind])
    · rw [primary_eq, hd, atom_relocate, hatom]
  | error e =>
    refine .stuck (.refl c) fun d _ hecho => ⟨d, .refl d, ?_⟩
    rw [primary_eq, hecho.head (.refl c), atom_relocate, hatom]

/-- Two parsers for expressions do the same, where at most `N` tokens are to come and elsewhere at
most `M`. -/
def ReplaysExpr (ρ : Relocation) (N M : Nat) (E E' : Power → Parser Expr) : Prop :=
  ∀ (p : Power) (c : Cursor), c.Terminated → c.remaining ≤ N →
    Replays ρ (Expr.relocate ρ) M (E' p) c (E p c)

/-- What a token opens, and what comes after it. -/
theorem opened_replays {k : Expr → Parser Expr} {k' : Expr → Parser Expr}
    (hE : ReplaysExpr ρ N M E E') (hc : c.Terminated) (hN : c.remaining ≤ N + 1) (hm : m ≤ M + 1)
    {opening : Opening} (hopen : standard.opening c.current.kind = some opening)
    (hk : ∀ (e : Expr) (c' : Cursor), c'.Terminated → c'.remaining < c.remaining →
      Replays ρ (Expr.relocate ρ) (m - 1) (k' (e.relocate ρ)) c' (k e c')) :
    Replays ρ (Expr.relocate ρ) m (opened E' opening >>= k') c ((opened E opening >>= k) c) := by
  cases opening with
  | primary =>
    refine (primary_replays hc).bind fun ts e c₁ hpass hok => ?_
    have hlt := (primary_reading hc).remaining_lt hok fun _ he => he.ne_nil
    have hlength := hpass.remaining_eq
    exact (hk e c₁ (hpass.terminated hc) hlt).mono (by omega)
  | grouping =>
    simp only [opened, grouping, bind_assoc, pure_bind]
    refine Replays.advance hc (by simp [opening_grouping hopen]) fun c₁ hc₁ hpass₁ => ?_
    have hlt := hpass₁.remaining_lt (by simp)
    refine ((hE .default c₁ hc₁ (by omega)).mono (by omega)).bind fun ts e c₂ hpass₂ _ => ?_
    refine Replays.expect (hpass₂.terminated hc₁) (by decide) fun _ c₃ hc₃ hpass₃ => ?_
    have hle := (hpass₂.trans hpass₃).remaining_le
    exact (hk e c₃ hc₃ (by omega)).mono (by omega)

/-- An operator and its right operand, and what comes after them. -/
theorem binary_replays {k : Expr → Parser Expr} {k' : Expr → Parser Expr}
    (hE : ReplaysExpr ρ N M E E') (hc : c.Terminated) (hN : c.remaining ≤ N + 1) (hm : m ≤ M + 1)
    (hjoin : standard.joining c.current.kind = some (.binary, p))
    (hk : ∀ (e : Expr) (c' : Cursor), c'.Terminated → c'.remaining < c.remaining →
      Replays ρ (Expr.relocate ρ) (m - 1) (k' (e.relocate ρ)) c' (k e c')) :
    Replays ρ (Expr.relocate ρ) m (binary E' (left.relocate ρ) p >>= k') c
      ((binary E left p >>= k) c) := by
  obtain ⟨op, hop, htoken, -⟩ := joining_binary hjoin
  have heof : c.current.kind ≠ .eof := by
    rw [htoken]
    cases op <;> decide
  unfold binary
  rw [bind_assoc, bind_assoc]
  refine Replays.peekKind ?_
  rw [hop]
  simp only [bind_assoc, pure_bind]
  refine Replays.advance hc heof fun c₁ hc₁ hpass₁ => ?_
  have hlt := hpass₁.remaining_lt (by simp)
  refine ((hE p c₁ hc₁ (by omega)).mono (by omega)).bind fun ts right c₂ hpass₂ _ => ?_
  have hle := hpass₂.remaining_le
  have hnext := hk (.binary ⟨left.span.start, right.span.stop⟩ left op right) c₂
    (hpass₂.terminated hc₁) (by omega)
  simp only [Expr.relocate_span]
  exact hnext.mono (Nat.sub_le (m - 1) ts.length)

/-- The arguments of a call, and what comes after them. -/
theorem call_replays {k : Expr → Parser Expr} {k' : Expr → Parser Expr}
    (hE : ReplaysExpr ρ N M E E') (hc : c.Terminated) (hN : c.remaining ≤ N + 1) (hm : m ≤ M + 1)
    (hopen : c.current.kind = .openParen)
    (hk : ∀ (e : Expr) (c' : Cursor), c'.Terminated → c'.remaining < c.remaining →
      Replays ρ (Expr.relocate ρ) (m - 1) (k' (e.relocate ρ)) c' (k e c')) :
    Replays ρ (Expr.relocate ρ) m (call E' (left.relocate ρ) >>= k') c
      ((call E left >>= k) c) := by
  cases left with
  | name span callee =>
    simp only [call, Expr.relocate, bind_assoc, pure_bind]
    refine Replays.advance hc (by simp [hopen]) fun c₁ hc₁ hpass₁ => ?_
    have hlt := hpass₁.remaining_lt (by simp)
    refine (commaList_replays hc₁ fun c' hc' hle =>
      (hE .default c' hc' (by omega)).mono (by omega)).bind fun ts es c₂ hpass₂ _ => ?_
    refine Replays.lastPosition ?_
    have hle := hpass₂.remaining_le
    have hnext := hk (.call ⟨span.start, c₂.lastPosition⟩ callee es) c₂ (hpass₂.terminated hc₁)
      (by omega)
    rw [Expr.relocate, Expr.relocateAll_eq_map] at hnext
    exact hnext.mono (Nat.sub_le (m - 1) ts.length)
  | _ => exact Replays.complain_bind _

/-- What a token joins to an expression, and what comes after it. -/
theorem joined_replays {k : Expr → Parser Expr} {k' : Expr → Parser Expr}
    (hE : ReplaysExpr ρ N M E E') (hc : c.Terminated) (hN : c.remaining ≤ N + 1) (hm : m ≤ M + 1)
    {joining : Joining} (hjoin : standard.joining c.current.kind = some (joining, p))
    (hk : ∀ (e : Expr) (c' : Cursor), c'.Terminated → c'.remaining < c.remaining →
      Replays ρ (Expr.relocate ρ) (m - 1) (k' (e.relocate ρ)) c' (k e c')) :
    Replays ρ (Expr.relocate ρ) m (joined E' (left.relocate ρ) p joining >>= k') c
      ((joined E left p joining >>= k) c) := by
  cases joining with
  | binary => exact binary_replays hE hc hN hm hjoin hk
  | call => exact call_replays hE hc hN hm (joining_call hjoin).1 hk

theorem extendWithin_replays (hE : ReplaysExpr ρ N M E E') :
    ∀ (n k m : Nat) (left : Expr) (c : Cursor), c.Terminated → c.remaining ≤ n →
      c.remaining ≤ N + 1 → m ≤ k → m ≤ M + 1 →
      Replays ρ (Expr.relocate ρ) m (extendWithin .standard E' power k (left.relocate ρ)) c
        (extendWithin .standard E power n left c) := by
  intro n
  induction n with
  | zero =>
    intro k m left c _ hn
    exact absurd c.remaining_pos (by omega)
  | succ n ih =>
    intro k m left c hc hn hN hk hM
    refine Replays.of_succ
      (g := fun k => extendWithin .standard E' power k (left.relocate ρ)) hk fun k hk =>
        Replays.peekKind ?_
    cases hjoin : standard.joining c.current.kind with
    | none => exact Replays.pure
    | some joining =>
      obtain ⟨joining, next⟩ := joining
      dsimp only
      split
      · have hloop : ∀ (e : Expr) (c' : Cursor), c'.Terminated → c'.remaining < c.remaining →
            Replays ρ (Expr.relocate ρ) (m - 1)
              (extendWithin .standard E' power k (e.relocate ρ)) c'
              (extendWithin .standard E power n e c') := fun e c' hc' hlt =>
          ih k (m - 1) e c' hc' (by omega) (by omega) (by omega) (by omega)
        exact joined_replays hE hc hN hM hjoin hloop
      · exact Replays.pure

theorem exprWithin_replays : ∀ n k, ReplaysExpr ρ n k (exprWithin .standard n)
    (exprWithin .standard k) := by
  intro n
  induction n with
  | zero =>
    intro k p c _ hn
    exact absurd c.remaining_pos (by omega)
  | succ n ih =>
    intro k p c hc hn
    refine Replays.of_succ (g := fun k => exprWithin .standard k p) (Nat.le_refl k) fun k hk =>
      Replays.mono ?_ hk
    refine Replays.peekKind ?_
    cases hopen : standard.opening c.current.kind with
    | none => exact Replays.unexpected
    | some opening =>
      refine opened_replays (ih k) hc hn (Nat.le_refl _) hopen fun left c' hc' hlt => ?_
      refine Replays.remaining (g := fun m => extendWithin .standard (exprWithin .standard k) p m
        (left.relocate ρ)) fun m hm => ?_
      exact extendWithin_replays (ih k) c'.remaining m m left c' hc' (Nat.le_refl _) (by omega)
        (Nat.le_refl m) (by omega)

theorem expr_replays (hc : c.Terminated) :
    Replays ρ (Expr.relocate ρ) m (expr .standard p) c (expr .standard p c) :=
  Replays.remaining fun n _ => exprWithin_replays c.remaining n p c hc (Nat.le_refl _)

/-! ### Declarations -/

theorem declaredType_replays (hc : c.Terminated) :
    Replays ρ id m declaredType c (declaredType c) := by
  have hread : ∀ type : Option BaseType, c.current.kind ≠ .eof →
      Replays ρ id m (do let _ ← advance; pure type : Parser (Option BaseType)) c
        ((do let _ ← advance; pure type : Parser (Option BaseType)) c) := fun type hk =>
    Replays.advance hc hk fun _ _ _ => Replays.pure (F := id)
  refine Replays.peekKind ?_
  cases hk : c.current.kind <;> rw [hk] at hread
  case varKw => exact hread none (by decide)
  case intKw => exact hread (some .int) (by decide)
  case boolKw => exact hread (some .bool) (by decide)
  all_goals exact Replays.complain_bind _

theorem typedName_replays (hc : c.Terminated) :
    Replays ρ (Decl.relocate ρ) m typedName c (typedName c) := by
  refine Replays.position ?_
  refine (declaredType_replays hc).bind fun ts type c₁ hpass₁ _ => ?_
  exact Replays.expectOr (hpass₁.terminated hc) (by decide) (Replays.complain_bind _)
    fun x c₂ _ _ => Replays.lastPosition (Replays.pure_of_eq rfl)

theorem declaration_replays (hc : c.Terminated) :
    Replays ρ (Decl.relocate ρ) m declaration c (declaration c) := by
  refine (typedName_replays hc).bind fun ts d c₁ hpass₁ _ => ?_
  exact Replays.expect (hpass₁.terminated hc) (by decide) fun _ _ _ _ => Replays.pure

/-! ### Statements -/

/-- Two parsers for statements do the same, where at most `N` tokens are to come and elsewhere at
most `M`. -/
def ReplaysStmt (ρ : Relocation) (N M : Nat) (S S' : Parser Stmt) : Prop :=
  ∀ c : Cursor, c.Terminated → c.remaining ≤ N → Replays ρ (Stmt.relocate ρ) M S' c (S c)

theorem block_replays (hS : ReplaysStmt ρ N M S S') (hreads : ReadsStmt N S) (hc : c.Terminated)
    (hN : c.remaining ≤ N + 1) :
    Replays ρ (Stmt.relocate ρ) (M + 1) (block S') c (block S c) := by
  refine Replays.expect hc (by decide) fun o c₁ hc₁ hpass₁ => ?_
  refine (many_replays hc₁ (fun _ hc' _ _ => declaration_replays hc') fun c' c'' d hc' _ _ hok =>
    (declaration_reading hc').remaining_lt hok fun _ hd => hd.ne_nil).bind
      fun ts ds c₂ hpass₂ _ => ?_
  have hc₂ := hpass₂.terminated hc₁
  have hlt := (hpass₁.trans hpass₂).remaining_lt (by simp)
  refine (many_replays hc₂ (fun c' hc' hle _ => (hS c' hc' (by omega)).mono (Nat.sub_le _ _))
    fun c' c'' s hc' hle _ hok =>
      (hreads c' hc' (by omega)).remaining_lt hok fun _ hs => hs.1.1.ne_nil).bind
        fun us ss c₃ hpass₃ _ => ?_
  refine Replays.expect (hpass₃.terminated hc₂) (by decide) fun _ c₄ _ _ =>
    Replays.lastPosition ?_
  exact Replays.pure_of_eq (by rw [Stmt.relocate, Stmt.relocateAll_eq_map]; rfl)

theorem assign_replays (hc : c.Terminated) :
    Replays ρ (Stmt.relocate ρ) m (assign (expr .standard)) c (assign (expr .standard) c) := by
  refine Replays.expect hc (by decide) fun x c₁ hc₁ _ => ?_
  refine Replays.expectOr hc₁ (by decide) (Replays.complain_bind _) fun _ c₂ hc₂ _ => ?_
  refine (expr_replays hc₂).bind fun ts e c₃ hpass₃ _ => ?_
  exact Replays.expect (hpass₃.terminated hc₂) (by decide) fun _ c₄ _ _ =>
    Replays.lastPosition (Replays.pure_of_eq rfl)

theorem returned_replays (hc : c.Terminated) (hk : c.current.kind = .returnKw) :
    Replays ρ (Stmt.relocate ρ) m (returned (expr .standard)) c (returned (expr .standard) c) := by
  refine Replays.advance hc (by simp [hk]) fun c₁ hc₁ _ => ?_
  refine (expr_replays hc₁).bind fun ts e c₂ hpass₂ _ => ?_
  exact Replays.expect (hpass₂.terminated hc₁) (by decide) fun _ c₃ _ _ =>
    Replays.lastPosition (Replays.pure_of_eq rfl)

theorem loop_replays (hS : ReplaysStmt ρ N M S S') (hc : c.Terminated) (hN : c.remaining ≤ N + 1)
    (hk : c.current.kind = .whileKw) :
    Replays ρ (Stmt.relocate ρ) (M + 1) (loop (expr .standard) S') c
      (loop (expr .standard) S c) := by
  refine Replays.advance hc (by simp [hk]) fun c₁ hc₁ hpass₁ => ?_
  refine (expr_replays hc₁).bind fun ts e c₂ hpass₂ _ => ?_
  have hlt := (hpass₁.trans hpass₂).remaining_lt (by simp)
  refine ((hS c₂ (hpass₂.terminated hc₁) (by omega)).mono (Nat.sub_le _ _)).bind
    fun us s c₃ _ _ => ?_
  exact Replays.lastPosition (Replays.pure_of_eq rfl)

theorem conditional_replays (hS : ReplaysStmt ρ N M S S') (hc : c.Terminated)
    (hN : c.remaining ≤ N + 1) (hk : c.current.kind = .ifKw) :
    Replays ρ (Stmt.relocate ρ) (M + 1) (conditional (expr .standard) S') c
      (conditional (expr .standard) S c) := by
  refine Replays.advance hc (by simp [hk]) fun c₁ hc₁ hpass₁ => ?_
  refine (expr_replays hc₁).bind fun ts e c₂ hpass₂ _ => ?_
  have hlt := (hpass₁.trans hpass₂).remaining_lt (by simp)
  have hc₂ := hpass₂.terminated hc₁
  refine ((hS c₂ hc₂ (by omega)).mono (Nat.sub_le _ _)).bind fun us s c₃ hpass₃ _ => ?_
  refine Replays.peekKind ?_
  split
  · rename_i helse
    refine Replays.advance (hpass₃.terminated hc₂) (by simp [helse]) fun c₄ hc₄ hpass₄ => ?_
    have hle := (hpass₃.trans hpass₄).remaining_le
    refine ((hS c₄ hc₄ (by omega)).mono (by omega)).bind fun vs s' c₅ _ _ => ?_
    exact Replays.lastPosition (Replays.pure_of_eq rfl)
  · exact Replays.lastPosition (Replays.pure_of_eq rfl)

theorem noStatement_replays : Replays ρ (Stmt.relocate ρ) m noStatement c (noStatement c) := by
  refine Replays.peekKind ?_
  split
  · exact Replays.complain _
  · exact Replays.complain _

theorem form_replays (hS : ReplaysStmt ρ N M S S') (hreads : ReadsStmt N S) (hc : c.Terminated)
    (hN : c.remaining ≤ N + 1) {f : StmtForm} (hf : standard.statement c.current.kind = some f) :
    Replays ρ (Stmt.relocate ρ) (M + 1) (form (expr .standard) S' f) c
      (form (expr .standard) S f c) := by
  cases hk : c.current.kind <;> simp [hk, standard] at hf <;> subst hf
  · exact assign_replays hc
  · exact block_replays hS hreads hc hN
  · exact conditional_replays hS hc hN hk
  · exact loop_replays hS hc hN hk
  · exact returned_replays hc hk

theorem stmtWithin_replays : ∀ n k, ReplaysStmt ρ n k (stmtWithin .standard n)
    (stmtWithin .standard k) := by
  intro n
  induction n with
  | zero =>
    intro k c _ hn
    exact absurd c.remaining_pos (by omega)
  | succ n ih =>
    intro k c hc hn
    refine Replays.of_succ (Nat.le_refl k) fun k hk => Replays.mono ?_ hk
    refine Replays.peekKind ?_
    cases hf : standard.statement c.current.kind with
    | none => exact noStatement_replays
    | some f => exact form_replays (ih k) (stmtWithin_reads n) hc hn hf

theorem stmt_replays (hc : c.Terminated) :
    Replays ρ (Stmt.relocate ρ) m (stmt .standard) c (stmt .standard c) :=
  Replays.remaining fun n _ => stmtWithin_replays c.remaining n c hc (Nat.le_refl _)

/-! ### Programs -/

theorem function_replays (hc : c.Terminated) :
    Replays ρ (FuncDef.relocate ρ) m (function .standard) c (function .standard c) := by
  refine Replays.expect hc (by decide) fun k c₁ hc₁ _ => ?_
  refine Replays.expect hc₁ (by decide) fun x c₂ hc₂ _ => ?_
  refine Replays.expect hc₂ (by decide) fun _ c₃ hc₃ _ => ?_
  refine (commaList_replays hc₃ fun c' hc' _ => typedName_replays hc').bind
    fun ts ds c₄ hpass₄ _ => ?_
  refine (stmt_replays (hpass₄.terminated hc₃)).bind fun us s c₅ _ _ => ?_
  exact Replays.lastPosition (Replays.pure_of_eq rfl)

theorem item_replays (hc : c.Terminated) :
    Replays ρ (Item.relocate ρ) m (Parser.item .standard) c (Parser.item .standard c) := by
  refine Replays.peekKind ?_
  split
  · exact (function_replays hc).bind fun _ _ _ _ _ => Replays.pure_of_eq rfl
  split
  · exact (declaration_replays hc).bind fun _ _ _ _ _ => Replays.pure_of_eq rfl
  · exact (stmt_replays hc).bind fun _ _ _ _ _ => Replays.pure_of_eq rfl

/-- A program is read in the same way wherever its tokens stand. -/
theorem program_replays (hc : c.Terminated) :
    Replays ρ (Program.relocate ρ) m (program .standard) c (program .standard c) := by
  refine (many_replays hc (fun _ hc' _ _ => item_replays hc') fun c' c'' i hc' _ _ hok =>
    (item_reading hc').remaining_lt hok fun _ hi => hi.1.ne_nil).bind fun ts items c' _ _ => ?_
  exact Replays.pure_of_eq (Program.ofItems_relocate ρ items)

end Parser

end SimpleLang
