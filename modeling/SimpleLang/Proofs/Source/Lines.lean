import SimpleLang.Proofs.Source.Offsets

/-!
# The lines of a text

A text is cut after each of its newlines (`Line.Cut`), in one way (`Line.cut_iff`).  The line at an
offset is a piece of that cut; where in the piece the offset is and how many newlines come before the
piece are told with it (`Line.find?_exact`).  The offset at the very end of a text is at the end of
its last piece.

A search from the front, with the byte at hand that the next piece begins with (`Line.walk`), never
looks at a piece that begins after the offset, so that the place in the piece can be had by a
subtraction (`Line.search_eq`).
-/

namespace SimpleLang.Line

variable {c : Char} {cs rest piece : List Char} {pieces before after : List (List Char)}
  {l : Line} {number offset start : Nat}

/-! ### Cutting after newlines -/

/-- The pieces of a text that is cut after each newline.  None of them is empty. -/
inductive Cut : List Char → List (List Char) → Prop
  | nil : Cut [] []
  | last {cs : List Char} : cs ≠ [] → '\n' ∉ cs → Cut cs [cs]
  | line {cs rest : List Char} {pieces : List (List Char)} : '\n' ∉ cs → Cut rest pieces →
      Cut (cs ++ '\n' :: rest) ((cs ++ ['\n']) :: pieces)

theorem split_cons_of_ne (hc : c ≠ '\n') (h : split cs = piece :: pieces) :
    split (c :: cs) = (c :: piece) :: pieces := by
  change extend c (split cs) = _
  rw [h, extend, if_neg hc]

theorem split_of_not_mem (hne : cs ≠ []) (hnot : '\n' ∉ cs) : split cs = [cs] := by
  induction cs with
  | nil => exact absurd rfl hne
  | cons c cs ih =>
    rw [List.mem_cons, not_or] at hnot
    obtain ⟨hc, hnot⟩ := hnot
    by_cases hcs : cs = []
    · subst hcs
      change extend c [] = _
      rw [extend, if_neg (Ne.symm hc)]
    · exact split_cons_of_ne (Ne.symm hc) (ih hcs hnot)

theorem split_append_newline (hnot : '\n' ∉ cs) (rest : List Char) :
    split (cs ++ '\n' :: rest) = (cs ++ ['\n']) :: split rest := by
  induction cs with
  | nil => rfl
  | cons c cs ih =>
    rw [List.mem_cons, not_or] at hnot
    exact split_cons_of_ne (Ne.symm hnot.1) (ih hnot.2)

/-- Splitting cuts after each newline. -/
theorem cut_split (cs : List Char) : Cut cs (split cs) := by
  induction cs with
  | nil => exact .nil
  | cons c cs ih =>
    by_cases hc : c = '\n'
    · subst hc
      change Cut ([] ++ '\n' :: cs) (([] ++ ['\n']) :: split cs)
      exact .line List.not_mem_nil ih
    · -- the character goes to the piece that comes after it
      generalize hpieces : split cs = pieces at ih
      cases ih with
      | nil =>
        have hnot : '\n' ∉ [c] := by simpa using Ne.symm hc
        rw [split_of_not_mem (by simp) hnot]
        exact .last (by simp) hnot
      | last hne hnot =>
        rw [split_cons_of_ne hc hpieces]
        exact .last (by simp) (by simpa using ⟨Ne.symm hc, hnot⟩)
      | @line ds rest pieces hnot hrest =>
        rw [split_cons_of_ne hc hpieces, ← List.cons_append, ← List.cons_append]
        exact .line (by simpa using ⟨Ne.symm hc, hnot⟩) hrest

/-- **A text is cut in one way.** -/
theorem cut_iff : Cut cs pieces ↔ pieces = split cs := by
  constructor
  · intro h
    induction h with
    | nil => rfl
    | last hne hnot => exact (split_of_not_mem hne hnot).symm
    | line hnot _ ih => rw [split_append_newline hnot, ih]
  · rintro rfl
    exact cut_split cs

theorem Cut.flatten_eq (h : Cut cs pieces) : pieces.flatten = cs := by
  rw [cut_iff.1 h, flatten_split]

/-- A newline ends its piece. -/
theorem Cut.newline_of_mem (h : Cut cs pieces) (hmem : piece ∈ pieces) :
    '\n' ∉ piece ∨ ∃ ds, piece = ds ++ ['\n'] ∧ '\n' ∉ ds := by
  induction h with
  | nil => cases hmem
  | last _ hnot =>
    rw [List.mem_singleton] at hmem
    exact .inl (hmem ▸ hnot)
  | @line ds rest pieces hnot _ ih =>
    rcases List.mem_cons.1 hmem with rfl | hmem
    · exact .inr ⟨ds, rfl, hnot⟩
    · exact ih hmem

/-- There are as many newlines before a piece as there are pieces. -/
theorem Cut.count_newline (h : Cut cs (before ++ piece :: after)) :
    before.flatten.count '\n' = before.length := by
  induction before generalizing cs with
  | nil => rfl
  | cons first before ih =>
    generalize hpieces : first :: before ++ piece :: after = pieces at h
    cases h with
    | nil => cases hpieces
    | last => simp at hpieces
    | line hnot hrest =>
      obtain ⟨rfl, rfl⟩ := List.cons.inj hpieces
      rw [List.flatten_cons, List.count_append, ih hrest, List.count_append,
        List.count_eq_zero.2 hnot, List.length_cons, List.count_singleton_self]
      omega

/-! ### The piece at an offset -/

/-- A line that is found is one of the lines, with those before it making up the offset. -/
theorem exists_of_locate (h : locate number pieces offset = some l) : ∃ before after,
    pieces = before ++ l.text :: after ∧ l.number = number + before.length ∧
      Text.byteSize before.flatten + l.column = offset ∧
      (l.column < Text.byteSize l.text ∨ after = [] ∧ l.column = Text.byteSize l.text) := by
  fun_induction locate number pieces offset with
  | case1 => cases h
  | case2 number piece offset hle =>
    cases h
    refine ⟨[], [], rfl, rfl, Nat.zero_add _, ?_⟩
    rcases Nat.lt_or_eq_of_le hle with hlt | heq
    · exact .inl hlt
    · exact .inr ⟨rfl, heq⟩
  | case3 => cases h
  | case4 number piece next pieces offset hlt =>
    cases h
    exact ⟨[], next :: pieces, rfl, rfl, Nat.zero_add _, .inl hlt⟩
  | case5 number piece next pieces offset hlt ih =>
    obtain ⟨before, after, hpieces, hnumber, hcolumn, hplace⟩ := ih h
    refine ⟨piece :: before, after, by rw [hpieces, List.cons_append], ?_, ?_, hplace⟩
    · rw [hnumber, List.length_cons]
      omega
    · rw [List.flatten_cons, Text.byteSize_append]
      omega

/-- Where the line at an offset comes from. -/
theorem exists_of_find? {content : String} {offset : UInt32} (h : find? content offset = some l) :
    ∃ before after, Cut content.toList (before ++ l.text :: after) ∧
      l.number = 1 + before.length ∧
      Text.byteSize before.flatten + l.column = offset.toNat ∧
      (l.column < Text.byteSize l.text ∨ after = [] ∧ l.column = Text.byteSize l.text) := by
  obtain ⟨before, after, hpieces, hrest⟩ := exists_of_locate h
  exact ⟨before, after, cut_iff.2 hpieces.symm, hrest⟩

/-! ### Searching from the front -/

/-- How far the offset is from the start of a line, if it is not before it. -/
def distance? (start offset : Nat) : Option Nat :=
  if start ≤ offset then some (offset - start) else none

/-- Looks at pieces in turn, with the byte and the number of the next one at hand and the line that
was looked at last.  The search breaks off at a piece that begins after the offset. -/
def walk (offset : Nat) : Nat → Nat → Option Line → List (List Char) → Option (Option Line)
  | _, _, last, [] => some last
  | start, number, _, piece :: pieces =>
    let stop := start + Text.byteSize piece
    (distance? start offset).bind fun column =>
      if start ≤ offset ∧ offset < stop then some (some ⟨number, piece, column⟩)
      else walk offset stop (number + 1) (some ⟨number, piece, column⟩) pieces

/-- The line at an offset, found from the front. -/
def search (content : String) (offset : UInt32) : Option (Option Line) :=
  if Text.byteSize content.toList < offset.toNat then some none
  else walk offset.toNat 0 1 none (split content.toList)

/-- A search that begins at or before the offset and does not end before it never breaks off. -/
theorem walk_eq (hstart : start ≤ offset)
    (hstop : offset ≤ start + Text.byteSize (piece :: pieces).flatten) (last : Option Line) :
    walk offset start number last (piece :: pieces) =
      some (locate number (piece :: pieces) (offset - start)) := by
  induction pieces generalizing start number last piece with
  | nil =>
    rw [List.flatten_cons, List.flatten_nil, List.append_nil] at hstop
    have hle : offset - start ≤ Text.byteSize piece := by omega
    rw [walk, distance?, if_pos hstart, Option.bind_some, locate, if_pos hle]
    split <;> rfl
  | cons next pieces ih =>
    rw [List.flatten_cons, Text.byteSize_append] at hstop
    rw [walk, distance?, if_pos hstart, Option.bind_some, locate]
    by_cases hlt : offset < start + Text.byteSize piece
    · rw [if_pos ⟨hstart, hlt⟩, if_pos (by omega)]
    · -- the next piece begins at or before the offset, since this one ends there
      rw [if_neg (fun h => hlt h.2), if_neg (by omega), ih (by omega) (by omega), Nat.sub_sub]

/-- **Searching from the front finds the line** and never breaks off. -/
theorem search_eq (content : String) (offset : UInt32) :
    search content offset = some (find? content offset) := by
  unfold search
  split
  · rename_i hlt
    have hnone : ¬ (find? content offset).isSome := by
      rw [isSome_find?_iff]
      omega
    rw [Option.not_isSome_iff_eq_none.1 hnone]
  · rename_i hle
    have hflatten := flatten_split content.toList
    rw [find?]
    cases hpieces : split content.toList with
    | nil => rfl
    | cons piece pieces =>
      rw [hpieces] at hflatten
      exact walk_eq (Nat.zero_le _) (by rw [hflatten]; omega) none

/-! ### Exactness -/

/-- The line is the piece of a text at an offset, and tells where it is. -/
structure At (pieces : List (List Char)) (offset : Nat) (l : Line) : Prop where
  /-- The number of the line is that of its text among the pieces. -/
  text : pieces[l.number - 1]? = some l.text
  /-- It is one more than there are newlines before the line. -/
  number : l.number = 1 + (pieces.take (l.number - 1)).flatten.count '\n'
  /-- The place in the line comes on top of the pieces before it. -/
  column : Text.byteSize (pieces.take (l.number - 1)).flatten + l.column = offset
  /-- An offset before the end of the text is in the line. -/
  inside : offset < Text.byteSize pieces.flatten → l.column < Text.byteSize l.text
  /-- The end of the text is the end of the last line. -/
  atEnd : offset = Text.byteSize pieces.flatten →
    l.number = pieces.length ∧ l.column = Text.byteSize l.text

theorem at_of_find? {content : String} {offset : UInt32} (h : find? content offset = some l) :
    l.At (split content.toList) offset.toNat := by
  obtain ⟨before, after, hcut, hnumber, hcolumn, hplace⟩ := exists_of_find? h
  rw [← cut_iff.1 hcut]
  have hindex : l.number - 1 = before.length := by omega
  have htake : (before ++ l.text :: after).take (l.number - 1) = before := by
    rw [hindex, List.take_left]
  have hbytes : Text.byteSize (before ++ l.text :: after).flatten =
      Text.byteSize before.flatten + (Text.byteSize l.text + Text.byteSize after.flatten) := by
    simp
  refine ⟨by simp [hindex], ?_, by rw [htake, hcolumn], fun hlt => ?_, fun heq => ?_⟩
  · rw [htake, hcut.count_newline, hnumber]
  · rcases hplace with hinside | ⟨rfl, hend⟩
    · exact hinside
    · rw [List.flatten_nil, Text.byteSize_nil] at hbytes
      omega
  · rcases hplace with hinside | ⟨rfl, hend⟩
    · omega
    · exact ⟨by simp [hnumber, Nat.add_comm], hend⟩

/-- **The line at an offset.**  There is none exactly if the text is empty or ends before the offset.
Otherwise it is the piece of the text, cut after each newline in the one way there is, that the
offset is in, with its number and the place in it; the end of the text is at the end of its last
piece.  Searching for it from the front never breaks off. -/
theorem find?_exact (content : String) (offset : UInt32) : ∃ pieces,
    (∀ pieces', Cut content.toList pieces' ↔ pieces' = pieces) ∧
    (find? content offset = none ↔
      content = "" ∨ Text.byteSize content.toList < offset.toNat) ∧
    (∀ l, find? content offset = some l → l.At pieces offset.toNat) ∧
    search content offset = some (find? content offset) := by
  refine ⟨split content.toList, fun _ => cut_iff, ?_, fun _ => at_of_find?,
    search_eq content offset⟩
  rw [← Option.not_isSome_iff_eq_none, isSome_find?_iff, ← String.toList_eq_nil_iff,
    Decidable.not_and_iff_not_or_not, Decidable.not_not, Nat.not_le]

example : find? "a\nbc\n" 2 = some ⟨2, ['b', 'c', '\n'], 0⟩ := by decide +kernel
example : find? "a\nbc\n" 5 = some ⟨2, ['b', 'c', '\n'], 3⟩ := by decide +kernel

end SimpleLang.Line
