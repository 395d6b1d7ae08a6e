import SimpleLang.Source.Reader

/-!
# Offsets into a text

Offsets count bytes, modulo 2^32.  The text in front of a place has as many bytes as the offset of
the place says (`Text.dropBytes?_append`), and in a text of fewer than 2^32 bytes no two places have
one offset (`Position.toNat_ofNat_of_lt`).  Every offset up to the end of a text lies in one of its
lines, unless the text is empty (`Line.isSome_find?_iff`).
-/

namespace SimpleLang

/-! ### Counting bytes -/

namespace Text

@[simp] theorem byteSize_nil : byteSize [] = 0 := rfl

@[simp] theorem byteSize_cons (c : Char) (cs : List Char) :
    byteSize (c :: cs) = c.utf8Size + byteSize cs := rfl

@[simp] theorem byteSize_append (cs ds : List Char) :
    byteSize (cs ++ ds) = byteSize cs + byteSize ds := by
  induction cs with
  | nil => simp
  | cons c cs ih => simp [ih, Nat.add_assoc]

/-- Dropping the bytes of what stands in front leaves the rest. -/
theorem dropBytes?_append (cs rest : List Char) :
    dropBytes? (byteSize cs) (cs ++ rest) = some rest := by
  induction cs with
  | nil => rw [byteSize_nil, List.nil_append, dropBytes?]
  | cons c cs ih =>
    obtain ⟨n, hn⟩ := Nat.exists_eq_add_one.2 (Char.utf8Size_pos c)
    have hsize : byteSize (c :: cs) = n + byteSize cs + 1 := by
      rw [byteSize_cons]
      omega
    rw [hsize, List.cons_append, dropBytes?, if_pos (by omega),
      show n + byteSize cs + 1 - c.utf8Size = byteSize cs by omega, ih]

end Text

namespace Position

theorem toNat_ofNat (file : String) (n : Nat) : (ofNat file n).offset.toNat = n % UInt32.size :=
  UInt32.toNat_ofNat'

theorem toNat_ofNat_of_lt (file : String) {n : Nat} (h : n < UInt32.size) :
    (ofNat file n).offset.toNat = n := by
  rw [toNat_ofNat, Nat.mod_eq_of_lt h]

/-- In a short text, the position after what stands in front lies in the text, and what is there is
the rest. -/
theorem dropBytes?_ofNat (file : String) {cs before rest : List Char}
    (hsize : Text.byteSize cs < UInt32.size) (hcs : cs = before ++ rest) :
    (ofNat file (Text.byteSize before)).offset.toNat ≤ Text.byteSize cs ∧
      Text.dropBytes? (ofNat file (Text.byteSize before)).offset.toNat cs = some rest := by
  subst hcs
  have hle : Text.byteSize before ≤ Text.byteSize (before ++ rest) := by
    rw [Text.byteSize_append]
    omega
  rw [toNat_ofNat_of_lt file (Nat.lt_of_le_of_lt hle hsize)]
  exact ⟨hle, Text.dropBytes?_append before rest⟩

end Position

/-! ### Lines -/

namespace Line

variable {cs : List Char}

/-- Cutting a text into lines loses nothing. -/
theorem flatten_split (cs : List Char) : (split cs).flatten = cs := by
  induction cs with
  | nil => rfl
  | cons c cs ih =>
    change (extend c (split cs)).flatten = c :: cs
    unfold extend
    split
    · rw [List.flatten_cons, ih, List.singleton_append]
    · split
      · rename_i hnil
        rw [hnil] at ih
        rw [← ih]
        rfl
      · rename_i hcons
        rw [hcons, List.flatten_cons] at ih
        rw [List.flatten_cons, List.cons_append, ih]

theorem split_ne_nil (h : cs ≠ []) : split cs ≠ [] := by
  intro hnil
  have hflatten := flatten_split cs
  rw [hnil] at hflatten
  exact h hflatten.symm

theorem isSome_locate_iff (number : Nat) (lines : List (List Char)) (offset : Nat) :
    (locate number lines offset).isSome ↔
      lines ≠ [] ∧ offset ≤ Text.byteSize lines.flatten := by
  fun_induction locate number lines offset with
  | case1 number offset => simp
  | case2 number l offset hle => simpa using hle
  | case3 number l offset hle => simpa using hle
  | case4 number l l' ls offset hlt =>
    rw [List.flatten_cons, Text.byteSize_append]
    exact iff_of_true rfl ⟨List.cons_ne_nil _ _, by omega⟩
  | case5 number l l' ls offset hlt ih =>
    rw [ih, List.flatten_cons (L := l' :: ls), Text.byteSize_append l]
    exact and_congr (by simp) (by omega)

/-- **There is a line at every offset** up to the end of a text that is not empty. -/
theorem isSome_find?_iff (content : String) (offset : UInt32) :
    (find? content offset).isSome ↔
      content.toList ≠ [] ∧ offset.toNat ≤ Text.byteSize content.toList := by
  rw [find?, isSome_locate_iff, flatten_split]
  refine and_congr_left fun _ => ⟨?_, split_ne_nil⟩
  intro h hnil
  rw [hnil] at h
  exact h rfl

end Line

end SimpleLang
