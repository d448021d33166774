import ClassRefactor.Text.Basic
import Mathlib.Data.List.Basic

/-!
# Names in the order of their bytes

Names are compared character by character. That is the order of their UTF-8 bytes: of two different
characters the lesser one has the lesser bytes, whatever follows.
-/

namespace ClassRefactor

/-- The UTF-8 bytes of a text. -/
def Text.bytes (t : Text) : List UInt8 := t.flatMap String.utf8EncodeChar

theorem Text.bytes_append (s t : Text) : (s ++ t).bytes = s.bytes ++ t.bytes :=
  List.flatMap_append

/-- The cases are the lengths of the two encodings. -/
theorem utf8EncodeChar_append_lt {c d : Char} (h : c < d) (u v : List UInt8) :
    String.utf8EncodeChar c ++ u < String.utf8EncodeChar d ++ v := by
  have hlt : c.val.toNat < d.val.toNat := h
  have hd : d.val.toNat < 0x110000 := by
    have := d.valid
    unfold UInt32.isValidChar Nat.isValidChar at this
    omega
  unfold String.utf8EncodeChar
  generalize c.val.toNat = m at *
  generalize d.val.toNat = n at *
  -- Each byte is a digit to base 64 and a constant.
  have digits : ∀ k : Nat, k / 4096 = k / 64 / 64 ∧ k / 262144 = k / 64 / 64 / 64 := fun k => by
    rw [Nat.div_div_eq_div_mul, Nat.div_div_eq_div_mul]
    exact ⟨rfl, rfl⟩
  simp only [digits]
  by_cases huv : u < v <;> split_ifs <;>
    simp only [List.cons_append, List.nil_append, List.cons_lt_cons_iff, UInt8.lt_iff_toNat_lt,
      ← UInt8.toNat_inj, UInt8.toNat_ofNat', huv, and_true, and_false, or_false] <;>
    omega

theorem Text.bytes_lt_of_lt {s t : Text} (h : s < t) : s.bytes < t.bytes := by
  induction s generalizing t with
  | nil =>
    cases t with
    | nil => exact absurd h (List.lt_irrefl _)
    | cons d t =>
      rw [bytes, bytes, List.flatMap_cons]
      cases hd : String.utf8EncodeChar d with
      | nil =>
        have hlength := String.length_utf8EncodeChar d
        rw [hd] at hlength
        exact absurd hlength.symm (Nat.ne_of_gt d.utf8Size_pos)
      | cons b bs => exact List.nil_lt_cons _ _
  | cons c s ih =>
    cases t with
    | nil => exact absurd h (List.not_lt_nil _)
    | cons d t =>
      rw [bytes, bytes, List.flatMap_cons, List.flatMap_cons]
      rcases List.cons_lt_cons_iff.mp h with hlt | ⟨rfl, hlt⟩
      · exact utf8EncodeChar_append_lt hlt _ _
      · exact List.append_left_lt (ih hlt)

/-- Texts stand in the order of their bytes. -/
theorem Text.bytes_lt_iff {s t : Text} : s.bytes < t.bytes ↔ s < t := by
  refine ⟨fun h => ?_, bytes_lt_of_lt⟩
  rcases Std.lt_trichotomy s t with hlt | rfl | hgt
  · exact hlt
  · exact absurd h (List.lt_irrefl _)
  · exact absurd h (List.lt_asymm (bytes_lt_of_lt hgt))

end ClassRefactor
