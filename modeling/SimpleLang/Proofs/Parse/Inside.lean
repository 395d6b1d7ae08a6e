import SimpleLang.Proofs.Parse.Unbounded

/-!
# Reading stays inside its input

Reading comes to an end (`Parser.Ends`), passes no end of input, and takes at least one token for
every expression, statement and item (`Parser.Consumes`).  So a list is read up to its first end of
input and no further: what comes after it does not matter, and neither does the name of the file
(`Program.read_stays_inside`).

That no end of input is passed follows from what decides an outcome.  Cut off after an end of
input, a list still has all that decides how it is read up to there, and where it ends a parser
stops.
-/

namespace SimpleLang

namespace Parser

open Cursor Grammar Phrase

variable {α β : Type} {ρ : Relocation} {F : α → β} {m : Nat} {c c' : Cursor} {ts : List Token}
  {P : List Token → α → Cursor → Prop} {Q : List Token → Prop} {x : Parser α}
  {r : EStateM.Result Diagnostic Cursor α}

/-! ### Ends of input -/

/-- The place where an outcome was reached. -/
def place : EStateM.Result Diagnostic Cursor α → Cursor
  | .ok _ c => c
  | .error _ c => c

@[simp] theorem place_ok (a : α) (c : Cursor) : place (.ok a c) = c := rfl

theorem Replays.place_replays {y : Parser β} (h : Replays ρ F m y c r) : ∃ ts,
    c.Passes ts (place r) ∧ ∀ d, d.remaining ≤ m → Echoes ρ c (ts ++ [(place r).current]) d →
      d.Passes (ts.map (Token.relocate ρ)) (place (y d)) := by
  cases h with
  | read hpass hreplay =>
    refine ⟨_, hpass, fun d hd hecho => ?_⟩
    obtain ⟨d', hpass', hy⟩ := hreplay d hd hecho
    rwa [hy]
  | stuck hpass hreplay =>
    refine ⟨_, hpass, fun d hd hecho => ?_⟩
    obtain ⟨d', hpass', hy⟩ := hreplay d hd hecho
    rwa [hy]

/-- The same place in a list that goes on otherwise, up to an end of input. -/
theorem exists_cut (c : Cursor) (us : List Token) {t : Token} (ht : t.kind = .eof) :
    ∃ d : Cursor, d.rest = us ++ [t] ∧ d.Terminated ∧ d.lastPosition = c.lastPosition := by
  obtain ⟨v, vs, hvs⟩ := List.exists_cons_of_ne_nil (List.concat_ne_nil t us)
  refine ⟨⟨c.before, v, vs, c.file⟩, hvs.symm, ⟨t, ?_, ht⟩, rfl⟩
  rw [Cursor.rest, ← hvs, List.getLast?_concat]

/-- A parser that does the same where it meets the same tokens passes no end of input. -/
theorem passes_before_eof {F : α → α} (hx : ∀ c m, c.Terminated → Replays .refl F m x c (x c))
    (hc : c.Terminated) : ∃ ts, c.Passes ts (place (x c)) ∧ ∀ t ∈ ts, t.kind ≠ .eof := by
  obtain ⟨ts, hpass, -⟩ := (hx c 0 hc).place_replays
  refine ⟨ts, hpass, fun t ht hk => ?_⟩
  obtain ⟨us, vs, rfl⟩ := List.append_of_mem ht
  have hbegins : us ++ [t] <+: c.rest := ⟨vs ++ (place (x c)).rest, by simp [hpass.rest]⟩
  obtain ⟨d, hrest, hd, hlast⟩ := exists_cut c us hk
  -- the cut list is read up to one of its tokens, and so is the whole one
  obtain ⟨ws, hpass', hreplay⟩ := (hx d c.remaining hd).place_replays
  have hecho : Echoes .refl d (ws ++ [(place (x d)).current]) c := by
    refine ⟨hc, ?_, hlast.symm⟩
    rw [Relocation.map_refl]
    exact hpass'.begins.trans (hrest ▸ hbegins)
  have hwhole := hreplay c (Nat.le_refl _) hecho
  rw [Relocation.map_refl] at hwhole
  have hlength := hpass'.remaining_eq
  rw [← length_rest, hrest, ← hpass.unique hwhole] at hlength
  have := (place (x d)).remaining_pos
  simp only [List.length_append, List.length_cons, List.length_nil] at hlength
  omega

/-- The outcome at `c` is reached over tokens before the end of input, at least one where something
is read. -/
def Consumes (c : Cursor) (r : EStateM.Result Diagnostic Cursor α) : Prop :=
  ∃ ts, c.Passes ts (place r) ∧ (∀ t ∈ ts, t.kind ≠ .eof) ∧ ∀ a c', r = .ok a c' → ts ≠ []

theorem consumes_of_replays {F : α → α} (hx : ∀ c m, c.Terminated → Replays .refl F m x c (x c))
    (hc : c.Terminated) (hlt : ∀ a c', x c = .ok a c' → c'.remaining < c.remaining) :
    Consumes c (x c) := by
  obtain ⟨ts, hpass, hts⟩ := passes_before_eof hx hc
  refine ⟨ts, hpass, hts, fun a c' hok hnil => ?_⟩
  have := hlt a c' hok
  rw [hok, hnil] at hpass
  rw [hpass.eq_of_nil] at this
  exact Nat.lt_irrefl _ this

theorem readsExpr (N : Nat) : ReadsExpr N (expr .standard) :=
  fun p c hp hc _ => exprWithin_reads c.remaining p c hp hc (Nat.le_refl _)

/-- An expression begins with what a token opens, whatever the power. -/
theorem expr_remaining_lt {p : Power} {e : Expr} (hc : c.Terminated)
    (h : expr .standard p c = .ok e c') : c'.remaining < c.remaining := by
  rw [← expr_agree p c hc, exprStep, bind_of_ok (peekKind_eq c)] at h
  cases hopen : standard.opening c.current.kind with
  | none =>
    rw [hopen] at h
    cases h
  | some opening =>
    rw [hopen] at h
    obtain ⟨left, c₁, hrun, hrest⟩ := bind_eq_ok_iff.1 h
    have hreading := opened_reading (readsExpr c.remaining) hc (Nat.le_succ _) hopen
    have hlt := hreading.remaining_lt hrun fun _ he => he.ne_nil
    rw [hrun] at hreading
    cases hreading with
    | read hpass _ =>
      have hextend : Replays .refl (Expr.relocate .refl) 0 (extend p (left.relocate .refl)) c₁
        (extend p left c₁) := extend_replays (hpass.terminated hc)
      rw [hrest] at hextend
      exact Nat.lt_of_le_of_lt hextend.remaining_le hlt

theorem expr_consumes (p : Power) (hc : c.Terminated) : Consumes c (expr .standard p c) :=
  consumes_of_replays (fun _ _ hc => expr_replays hc) hc fun _ _ hok => expr_remaining_lt hc hok

theorem stmt_consumes (hc : c.Terminated) : Consumes c (stmt .standard c) :=
  consumes_of_replays (fun _ _ hc => stmt_replays hc) hc fun _ _ hok =>
    (stmt_reading hc).remaining_lt hok fun _ hs => hs.1.1.ne_nil

theorem item_consumes (hc : c.Terminated) : Consumes c (item .standard c) :=
  consumes_of_replays (fun _ _ hc => item_replays hc) hc fun _ _ hok =>
    (item_reading hc).remaining_lt hok fun _ hi => hi.1.ne_nil

/-! ### Loops -/

/-- A loop ends by itself: its equation, without a bound, has one solution. -/
def LoopEnds (test : TokenKind → Bool) (item : Parser α) : Prop :=
  ∀ L, Agree L (manyStep test item L) ↔ Agree L (many test item)

theorem loopEnds_of_reading {test : TokenKind → Bool}
    (h : ∀ c : Cursor, c.Terminated → Reading c P Q (x c)) (hne : ∀ ts a c', P ts a c' → ts ≠ []) :
    LoopEnds test x := by
  refine fun L => many_unique fun c c' a hc _ hok => ?_
  have hreading := h c hc
  rw [hok] at hreading
  cases hreading with
  | read hpass ha => exact ⟨hpass.terminated hc, hpass.remaining_lt (hne _ _ _ ha)⟩

/-- A loop over what comes after commas. -/
theorem loopEnds_afterComma (h : ∀ c : Cursor, c.Terminated → Reading c P Q (x c)) :
    LoopEnds (· == .comma) (do let _ ← advance; x) := by
  refine fun L => many_unique fun c c' a hc htest hok => ?_
  have hnext := hc.passes_next fun hk => by simp [hk] at htest
  have hreading := h c.next (hnext.terminated hc)
  rw [show x c.next = .ok a c' from hok] at hreading
  cases hreading with
  | read hpass _ =>
    have hboth := hnext.trans hpass
    exact ⟨hboth.terminated hc, hboth.remaining_lt (by simp)⟩

/-- Reading ends by itself: at the places of a list that ends with the end of input, the equations
of the parsers, without any bound, have these parsers as their one solution. -/
structure Ends : Prop where
  /-- Expressions inside expressions, and the operators and calls that extend them. -/
  expr : ∀ (E : Power → Parser Expr) (X : Power → Expr → Parser Expr),
    ((∀ p, Agree (E p) (exprStep E X p)) ∧ ∀ p left, Agree (X p left) (extendStep E X p left)) ↔
      (∀ p, Agree (E p) (expr .standard p)) ∧ ∀ p left, Agree (X p left) (extend p left)
  /-- Statements inside statements. -/
  stmt : ∀ S : Parser Stmt, Agree S (stmtStep S) ↔ Agree S (stmt .standard)
  /-- The arguments of a call. -/
  arguments : LoopEnds (· == .comma) (do let _ ← advance; Parser.expr .standard .default)
  /-- The parameters of a function. -/
  parameters : LoopEnds (· == .comma) (do let _ ← advance; typedName)
  /-- The declarations of a block. -/
  declarations : LoopEnds TokenKind.startsDeclaration declaration
  /-- The statements of a block. -/
  statements : LoopEnds (fun k => k != .closeCurly && k != .eof) (Parser.stmt .standard)
  /-- The items of a program. -/
  items : LoopEnds (· != .eof) (item .standard)

theorem ends : Ends where
  expr _ _ := expr_unique
  stmt _ := stmt_unique
  arguments := loopEnds_afterComma fun _ hc => expr_reading hc
  parameters := loopEnds_afterComma fun _ hc => typedName_reading hc
  declarations := loopEnds_of_reading (fun _ hc => declaration_reading hc) fun _ _ _ hd => hd.ne_nil
  statements := loopEnds_of_reading (fun _ hc => stmt_reading hc) fun _ _ _ hs => hs.1.1.ne_nil
  items := loopEnds_of_reading (fun _ hc => item_reading hc) fun _ _ _ hi => hi.1.ne_nil

end Parser

namespace Program

open SimpleLang.Parser Phrase

variable {file file' : String} {tokens tokens' ts us : List Token} {e : Token} {p : Program}

/-! ### Up to the first end of input -/

/-- The first end of input of a list that has one. -/
theorem exists_first_eof (file : String) (tokens : List Token) : ∃ ts e us,
    Cursor.terminate file tokens = ts ++ e :: us ∧ (∀ t ∈ ts, t.kind ≠ .eof) ∧ e.kind = .eof := by
  obtain ⟨t, ht, hk⟩ := Cursor.getLast?_terminate file tokens
  have hmem := List.mem_of_getLast? ht
  generalize Cursor.terminate file tokens = l at hmem
  induction l with
  | nil => cases hmem
  | cons v l ih =>
    by_cases hv : v.kind = .eof
    · exact ⟨[], v, l, rfl, by simp, hv⟩
    · have hne : t ≠ v := fun h => hv (h ▸ hk)
      obtain ⟨ts, e, us, rfl, hts, he⟩ := ih (List.mem_of_ne_of_mem hne hmem)
      exact ⟨v :: ts, e, us, rfl, List.forall_mem_cons.2 ⟨hv, hts⟩, he⟩

/-- What is passed, and the token after it, stand before the first end of input or there. -/
theorem exists_passed (hlist : ts ++ [e] <+: Cursor.terminate file tokens) (he : e.kind = .eof) :
    ∃ vs, (Cursor.start file tokens).Passes vs (place (read tokens file)) ∧
      vs ++ [(place (read tokens file)).current] <+: ts ++ [e] := by
  obtain ⟨vs, hpass, hvs⟩ : ∃ vs,
      (Cursor.start file tokens).Passes vs (place (read tokens file)) ∧ ∀ t ∈ vs, t.kind ≠ .eof :=
    passes_before_eof (fun _ _ hc => program_replays hc) (Cursor.start_terminated file tokens)
  refine ⟨vs, hpass, ?_⟩
  have hbegins := hpass.begins
  rw [Cursor.rest_start] at hbegins
  -- otherwise the end of input would be among what is passed
  refine List.prefix_of_prefix_length_le hbegins hlist (Nat.le_of_not_lt fun hlt => ?_)
  have hlong := List.prefix_of_prefix_length_le hlist hbegins (Nat.le_of_lt hlt)
  obtain ⟨us, hus⟩ := (List.prefix_concat_iff.1 hlong).resolve_left fun h => by simp [h] at hlt
  exact hvs e (by simp [← hus]) he

/-- A list is read up to its first end of input. -/
theorem exists_items (hlist : ts ++ [e] <+: Cursor.terminate file tokens)
    (hts : ∀ t ∈ ts, t.kind ≠ .eof) (he : e.kind = .eof) {c : Cursor}
    (h : read tokens file = .ok p c) :
    c.index = ts.length ∧ c.current = e ∧
      ∃ items, Sequence NearestTopLevel ts items ∧ p = .ofItems items := by
  obtain ⟨vs, hpass, hvs⟩ := exists_passed hlist he
  rw [h, place_ok] at hpass hvs
  have hreading := program_reading (Cursor.start_terminated file tokens)
  rw [show program .standard (Cursor.start file tokens) = .ok p c from h] at hreading
  cases hreading with
  | read hpass' hread =>
    obtain ⟨hitems, hend⟩ := hread
    obtain rfl := hpass'.unique hpass
    rcases List.prefix_concat_iff.1 hvs with heq | hbefore
    · obtain ⟨rfl, hcurrent⟩ := List.append_inj' heq rfl
      exact ⟨(terminate_eq_of_passes hpass).2, List.cons.inj hcurrent |>.1, hitems⟩
    · exact absurd hend (hts _ (hbefore.subset (by simp)))

/-- All starts where they are, and all ends at one place. -/
def blurred (q : Position) : Relocation := ⟨id, fun _ => q⟩

/-- A list is rejected with the same report, or not at all, wherever its tokens end and whatever the
file. -/
theorem program_blurred {z : Cursor} (hlist : ts ++ [e] <+: Cursor.terminate file tokens)
    (he : e.kind = .eof) (hz : z.Terminated)
    (hrest : z.rest = (ts ++ [e]).map (Token.relocate (blurred z.lastPosition))) :
    (∀ p c, read tokens file = .ok p c → ∃ p' c', program .standard z = .ok p' c') ∧
      ∀ d c, read tokens file = .error d c → ∃ c', program .standard z = .error d c' := by
  obtain ⟨vs, hpass, hvs⟩ := exists_passed hlist he
  have hecho : Cursor.Echoes (blurred z.lastPosition) (Cursor.start file tokens)
      (vs ++ [(place (read tokens file)).current]) z := ⟨hz, hrest ▸ hvs.map _, rfl⟩
  have hreplays := program_replays (ρ := blurred z.lastPosition) (m := z.remaining)
    (Cursor.start_terminated file tokens)
  change Replays _ _ _ _ _ (read tokens file) at hreplays
  constructor
  · intro p c hok
    rw [hok] at hpass hecho hreplays
    cases hreplays with
    | read hpass' hreplay =>
      obtain rfl := hpass'.unique hpass
      obtain ⟨c', -, hrun⟩ := hreplay z (Nat.le_refl _) hecho
      exact ⟨_, c', hrun⟩
  · intro d c herror
    rw [herror] at hpass hecho hreplays
    cases hreplays with
    | stuck hpass' hreplay =>
      obtain rfl := hpass'.unique hpass
      obtain ⟨c', -, hrun⟩ := hreplay z (Nat.le_refl _) hecho
      exact ⟨c', hrun⟩

/-- Lists with the same tokens up to their first end of input are read alike. -/
theorem ofTokens_eq_of_begins (hts : ∀ t ∈ ts, t.kind ≠ .eof) (he : e.kind = .eof)
    (hlist : ts ++ [e] <+: Cursor.terminate file tokens)
    (hlist' : ts ++ [e] <+: Cursor.terminate file' tokens') :
    ofTokens tokens file = ofTokens tokens' file' := by
  obtain ⟨z, hrest, hz, hlast⟩ := exists_cut ⟨[], e, [], ""⟩
    (ts.map (Token.relocate (blurred ⟨0, ""⟩))) (t := e.relocate (blurred ⟨0, ""⟩)) he
  have hrest : z.rest = (ts ++ [e]).map (Token.relocate (blurred z.lastPosition)) := by
    rw [hrest, hlast]
    simp [Cursor.lastPosition]
  obtain ⟨hok, herror⟩ := program_blurred hlist he hz hrest
  obtain ⟨hok', herror'⟩ := program_blurred hlist' he hz hrest
  unfold ofTokens
  cases hread : read tokens file with
  | ok p c =>
    obtain ⟨p₁, c₁, hrun⟩ := hok p c hread
    cases hread' : read tokens' file' with
    | ok p' c' =>
      obtain ⟨-, -, items, hitems, rfl⟩ := exists_items hlist hts he hread
      obtain ⟨-, -, items', hitems', rfl⟩ := exists_items hlist' hts he hread'
      rw [items_unique hitems hitems']
    | error d' c' =>
      obtain ⟨c₂, hrun'⟩ := herror' d' c' hread'
      cases hrun.symm.trans hrun'
  | error d c =>
    obtain ⟨c₁, hrun⟩ := herror d c hread
    cases hread' : read tokens' file' with
    | ok p' c' =>
      obtain ⟨p₂, c₂, hrun'⟩ := hok' p' c' hread'
      cases hrun.symm.trans hrun'
    | error d' c' =>
      obtain ⟨c₂, hrun'⟩ := herror' d' c' hread'
      cases hrun.symm.trans hrun'
      rfl

/-- The file is named only where there is no token at all. -/
theorem terminate_eq_of_ne_nil (file file' : String) (h : tokens ≠ []) :
    Cursor.terminate file tokens = Cursor.terminate file' tokens := by
  obtain ⟨us, t, rfl⟩ := (List.eq_nil_or_concat tokens).resolve_left h
  simp [Cursor.terminate, Cursor.endPosition]

/-- The name of the file does not matter. -/
theorem ofTokens_file (tokens : List Token) (file file' : String) :
    ofTokens tokens file = ofTokens tokens file' := by
  by_cases hne : tokens = []
  · rw [hne]
    rfl
  · obtain ⟨ts, e, us, hlist, hts, he⟩ := exists_first_eof file tokens
    have hbegins : ts ++ [e] <+: Cursor.terminate file tokens := ⟨us, by simp [hlist]⟩
    exact ofTokens_eq_of_begins hts he hbegins (terminate_eq_of_ne_nil file file' hne ▸ hbegins)

/-- **Reading stays inside its input and ends.**  The recursion of the parsers ends by itself.  From
any place of a list that ends with the end of input, an expression at any power, a statement or an
item passes over tokens none of which is the end of input, and over at least one if it is read.  A
list of tokens, with the end of input that is added to it if it does not end with one, is read no
further than to its first end of input, and up to there if it is read.  What is read, or reported,
depends on the tokens up to the first end of input only, and not on the name of the file. -/
theorem read_stays_inside (tokens : List Token) (file : String) :
    Parser.Ends ∧
    (∀ c : Cursor, c.Terminated → (∀ power, Consumes c (expr .standard power c)) ∧
      Consumes c (stmt .standard c) ∧ Consumes c (item .standard c)) ∧
    (∃ ts e us, Cursor.terminate file tokens = ts ++ e :: us ∧ (∀ t ∈ ts, t.kind ≠ .eof) ∧
      e.kind = .eof ∧ (place (read tokens file)).index ≤ ts.length ∧
      (∀ p c, read tokens file = .ok p c → c.index = ts.length ∧ c.current = e) ∧
      ∀ tokens' file', ts ++ [e] <+: Cursor.terminate file' tokens' →
        ofTokens tokens' file' = ofTokens tokens file) ∧
    ∀ file', ofTokens tokens file' = ofTokens tokens file := by
  refine ⟨Parser.ends, fun c hc => ⟨fun p => expr_consumes p hc, stmt_consumes hc,
    item_consumes hc⟩, ?_, fun file' => ofTokens_file tokens file' file⟩
  obtain ⟨ts, e, us, hlist, hts, he⟩ := exists_first_eof file tokens
  have hbegins : ts ++ [e] <+: Cursor.terminate file tokens := ⟨us, by simp [hlist]⟩
  obtain ⟨vs, hpass, hvs⟩ := exists_passed hbegins he
  refine ⟨ts, e, us, hlist, hts, he, ?_, fun p c hok => ?_, fun tokens' file' hbegins' => ?_⟩
  · rw [(terminate_eq_of_passes hpass).2]
    simpa using hvs.length_le
  · obtain ⟨hindex, hcurrent, -⟩ := exists_items hbegins hts he hok
    exact ⟨hindex, hcurrent⟩
  · exact ofTokens_eq_of_begins hts he hbegins' hbegins

/-- An end of input in the middle of a list is where reading it ends, although another one is added
after the name behind it. -/
example :
    let tokens : List Token := [.single 0 .identifier "x", .single 1 .assignment ":=",
      .single 2 .number "1", .single 3 .semicolon ";", .single 4 .eof "EOF",
      .single 5 .identifier "y"]
    read tokens "" =
      .ok ⟨[], [], [.assign ⟨⟨0, ""⟩, ⟨4, ""⟩⟩ "x" (.int ⟨⟨2, ""⟩, ⟨3, ""⟩⟩ 1)]⟩
        ⟨(tokens.take 4).reverse, .single 4 .eof "EOF",
          [.single 5 .identifier "y", .endOfInput ⟨6, ""⟩], ""⟩ := by
  rfl

end Program

end SimpleLang
