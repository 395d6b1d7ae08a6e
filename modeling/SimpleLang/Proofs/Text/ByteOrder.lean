import Mathlib.Data.String.Basic

/-!
# The order of bytes

Names are sorted by code points.  The UTF-8 form keeps that order: of two texts the one that comes
first by code points also comes first by bytes (`Text.bytes_lt_bytes`).  Of two characters with
forms of different lengths the longer one has the larger first byte, and in forms of one length the
bytes are the digits of the code points.
-/

namespace SimpleLang.Text

/-- The bytes of a text in UTF-8. -/
def bytes (text : String) : List UInt8 := text.toByteArray.data.toList

theorem bytes_eq_flatMap (text : String) :
    bytes text = text.toList.flatMap String.utf8EncodeChar := by
  rw [bytes, ← String.utf8Encode_toList, List.utf8Encode]
  exact List.data_toByteArray ▸ rfl

theorem ofNat_lt_ofNat {a b : Nat} (h : a < b) (hb : b < 256) : UInt8.ofNat a < UInt8.ofNat b := by
  rw [UInt8.lt_iff_toNat_lt, UInt8.toNat_ofNat_of_lt' (h.trans hb), UInt8.toNat_ofNat_of_lt' hb]
  exact h

/-- Bytes that begin with a smaller one come first, and so do those that begin alike and go on with
bytes that come first. -/
theorem cons_lt_cons_of {a b : Nat} {xs ys : List UInt8} (hb : b < 256)
    (h : a < b ∨ a = b ∧ xs < ys) : UInt8.ofNat a :: xs < UInt8.ofNat b :: ys := by
  rw [List.cons_lt_cons_iff]
  rcases h with h | ⟨rfl, h⟩
  · exact .inl (ofNat_lt_ofNat h hb)
  · exact .inr ⟨rfl, h⟩

/-- Characters keep their order, whatever comes after them. -/
theorem encode_lt_encode {c d : Char} (h : c < d) (xs ys : List UInt8) :
    String.utf8EncodeChar c ++ xs < String.utf8EncodeChar d ++ ys := by
  have hlt : c.val.toNat < d.val.toNat := h
  have hmax : d.val.toNat < 0x110000 := by
    rcases d.valid with hd | ⟨-, hd⟩
    · exact Nat.lt_trans hd (by decide)
    · exact hd
  unfold String.utf8EncodeChar
  dsimp only
  generalize c.val.toNat = v at hlt
  generalize d.val.toNat = w at hlt hmax
  by_cases hv₁ : v ≤ 0x7f
  · -- a single byte is smaller than any that begins a longer form
    rw [if_pos hv₁]
    split_ifs <;> exact cons_lt_cons_of (by omega) (.inl (by omega))
  rw [if_neg hv₁, if_neg (show ¬ w ≤ 0x7f by omega)]
  by_cases hv₂ : v ≤ 0x7ff
  · rw [if_pos hv₂]
    split_ifs
    · have hdigits : v / 64 < w / 64 ∨ v / 64 = w / 64 ∧ v % 64 < w % 64 := by omega
      refine cons_lt_cons_of (by omega) (hdigits.imp (by omega) fun ⟨h₀, h₁⟩ => ⟨by omega, ?_⟩)
      exact cons_lt_cons_of (by omega) (.inl (by omega))
    all_goals exact cons_lt_cons_of (by omega) (.inl (by omega))
  rw [if_neg hv₂, if_neg (show ¬ w ≤ 0x7ff by omega)]
  by_cases hv₃ : v ≤ 0xffff
  · rw [if_pos hv₃]
    split_ifs
    · have hdigits : v / 4096 < w / 4096 ∨ v / 4096 = w / 4096 ∧ (v / 64 % 64 < w / 64 % 64 ∨
          v / 64 % 64 = w / 64 % 64 ∧ v % 64 < w % 64) := by omega
      refine cons_lt_cons_of (by omega) (hdigits.imp (by omega) fun ⟨h₀, h₁⟩ => ⟨by omega, ?_⟩)
      refine cons_lt_cons_of (by omega) (h₁.imp (by omega) fun ⟨h₁, h₂⟩ => ⟨by omega, ?_⟩)
      exact cons_lt_cons_of (by omega) (.inl (by omega))
    · exact cons_lt_cons_of (by omega) (.inl (by omega))
  rw [if_neg hv₃, if_neg (show ¬ w ≤ 0xffff by omega)]
  have hdigits : v / 262144 < w / 262144 ∨ v / 262144 = w / 262144 ∧
      (v / 4096 % 64 < w / 4096 % 64 ∨ v / 4096 % 64 = w / 4096 % 64 ∧
        (v / 64 % 64 < w / 64 % 64 ∨ v / 64 % 64 = w / 64 % 64 ∧ v % 64 < w % 64)) := by omega
  refine cons_lt_cons_of (by omega) (hdigits.imp (by omega) fun ⟨h₀, h₁⟩ => ⟨by omega, ?_⟩)
  refine cons_lt_cons_of (by omega) (h₁.imp (by omega) fun ⟨h₁, h₂⟩ => ⟨by omega, ?_⟩)
  refine cons_lt_cons_of (by omega) (h₂.imp (by omega) fun ⟨h₂, h₃⟩ => ⟨by omega, ?_⟩)
  exact cons_lt_cons_of (by omega) (.inl (by omega))

/-- **Texts in the order of code points are in the order of bytes.** -/
theorem bytes_lt_bytes {a b : String} (h : a < b) : bytes a < bytes b := by
  rw [bytes_eq_flatMap, bytes_eq_flatMap]
  rw [String.lt_iff_toList_lt] at h
  generalize a.toList = cs at h
  generalize b.toList = ds at h
  induction cs generalizing ds with
  | nil =>
    cases ds with
    | nil => cases h
    | cons d ds =>
      obtain ⟨x, xs, hx⟩ := List.exists_cons_of_ne_nil (String.utf8EncodeChar_ne_nil (c := d))
      rw [List.flatMap_cons, hx]
      exact List.nil_lt_cons _ _
  | cons c cs ih =>
    cases ds with
    | nil => cases h
    | cons d ds =>
      rw [List.flatMap_cons, List.flatMap_cons]
      rcases List.cons_lt_cons_iff.1 h with hlt | ⟨rfl, hlt⟩
      · exact encode_lt_encode hlt _ _
      · exact List.append_left_lt (ih _ hlt)

end SimpleLang.Text
