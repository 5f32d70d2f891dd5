import CommandWiring.Text.Lines
import Mathlib.Data.String.Basic
import Mathlib.Data.UInt

/-!
# The order of bytes

A character is encoded by its code to the base 64, behind a first byte that tells how many bytes
there are. Longer codes have larger first bytes, so the bytes of texts are ordered as their
characters are.
-/

namespace CommandWiring
namespace Text

/-!
# Numbers to the base 64
-/

/-- `n` to the base 64 in one byte that counts from `lead` and in `places` bytes behind it that
count from 128. -/
def spread (lead : Nat) : Nat -> Nat -> List UInt8
  | 0, n => [UInt8.ofNat (lead + n)]
  | places + 1, n => spread lead places (n / 64) ++ [UInt8.ofNat (n % 64 + 128)]

variable {lead places m n : Nat}

theorem ofNat_lt_ofNat (less : m < n) (small : n < 256) : UInt8.ofNat m < UInt8.ofNat n :=
  (UInt8.ofNat_lt_iff_lt (Nat.lt_trans less small) small).mpr less

theorem spread_lt (less : m < n) (small : lead + n / 64 ^ places < 256) (x y : List UInt8) :
    spread lead places m ++ x < spread lead places n ++ y := by
  induction places generalizing m n x y with
  | zero =>
      rw [pow_zero, Nat.div_one] at small
      exact List.cons_lt_cons_iff.mpr
        (Or.inl (ofNat_lt_ofNat (Nat.add_lt_add_left less lead) small))
  | succ places ih =>
      rw [spread, spread, List.append_assoc, List.append_assoc]
      rw [pow_succ', ← Nat.div_div_eq_div_mul] at small
      rcases Nat.lt_or_ge (m / 64) (n / 64) with lower | notLower
      · exact ih lower small _ _
      · have same : m / 64 = n / 64 := Nat.le_antisymm (Nat.div_le_div_right less.le) notLower
        have lastLess : m % 64 + 128 < n % 64 + 128 := by omega
        rw [same]
        apply List.append_left_lt
        exact List.cons_lt_cons_iff.mpr (Or.inl (ofNat_lt_ofNat lastLess (by omega)))

theorem exists_spread_eq_cons (lead places n : Nat) :
    ∃ rest, spread lead places n = UInt8.ofNat (lead + n / 64 ^ places) :: rest := by
  induction places generalizing n with
  | zero => exact ⟨[], by rw [spread, pow_zero, Nat.div_one]⟩
  | succ places ih =>
      rcases ih (n / 64) with ⟨rest, isRest⟩
      refine ⟨rest ++ [UInt8.ofNat (n % 64 + 128)], ?_⟩
      rw [spread, isRest, List.cons_append, pow_succ', Nat.div_div_eq_div_mul]

/-!
# Characters
-/

def placesOf (n : Nat) : Nat :=
  if n ≤ 127 then 0 else if n ≤ 2047 then 1 else if n ≤ 65535 then 2 else 3

def leadOf : Nat -> Nat
  | 0 => 0
  | 1 => 192
  | 2 => 224
  | _ => 240

theorem code_le (c : Char) : c.val.toNat ≤ 0x10FFFF := by
  have valid := c.valid
  unfold UInt32.isValidChar Nat.isValidChar at valid
  omega

theorem utf8EncodeChar_eq_spread (c : Char) :
    String.utf8EncodeChar c =
      spread (leadOf (placesOf c.val.toNat)) (placesOf c.val.toNat) c.val.toNat := by
  have bound := code_le c
  unfold String.utf8EncodeChar placesOf
  generalize c.val.toNat = n at bound
  dsimp only
  split_ifs
  · simp [spread, leadOf]
  · have first : n / 64 % 32 + 192 = 192 + n / 64 := by omega
    simp [spread, leadOf, first]
  · have first : n / 4096 % 16 + 224 = 224 + n / 64 / 64 := by omega
    simp [spread, leadOf, first]
  · have first : n / 262144 % 8 + 240 = 240 + n / 64 / 64 / 64 := by omega
    have second : n / 4096 % 64 = n / 64 / 64 % 64 := by omega
    simp [spread, leadOf, first, second]

def firstByte (n : Nat) : Nat :=
  leadOf (placesOf n) + n / 64 ^ placesOf n

theorem firstByte_lt (bound : n ≤ 0x10FFFF) : firstByte n < 256 := by
  unfold firstByte placesOf
  split_ifs <;> simp only [leadOf] <;> omega

theorem firstByte_lt_of_placesOf_ne (less : m < n) (bound : n ≤ 0x10FFFF)
    (apart : placesOf m ≠ placesOf n) : firstByte m < firstByte n := by
  unfold firstByte
  unfold placesOf at apart ⊢
  split_ifs at apart ⊢ <;> simp only [leadOf] <;> omega

theorem utf8EncodeChar_lt {c d : Char} (less : c < d) (x y : List UInt8) :
    String.utf8EncodeChar c ++ x < String.utf8EncodeChar d ++ y := by
  have lessCode : c.val.toNat < d.val.toNat := less
  have small := firstByte_lt (code_le d)
  rw [utf8EncodeChar_eq_spread, utf8EncodeChar_eq_spread]
  by_cases same : placesOf c.val.toNat = placesOf d.val.toNat
  · rw [same]
    exact spread_lt lessCode small x y
  · have lower := firstByte_lt_of_placesOf_ne lessCode (code_le d) same
    rcases exists_spread_eq_cons (leadOf (placesOf c.val.toNat)) (placesOf c.val.toNat)
      c.val.toNat with ⟨rest, isRest⟩
    rcases exists_spread_eq_cons (leadOf (placesOf d.val.toNat)) (placesOf d.val.toNat)
      d.val.toNat with ⟨other, isOther⟩
    rw [isRest, isOther]
    exact List.cons_lt_cons_iff.mpr (Or.inl (ofNat_lt_ofNat lower small))

/-!
# Texts
-/

theorem bytes_ofList (chars : List Char) :
    bytes (String.ofList chars) = chars.flatMap String.utf8EncodeChar := by
  rw [bytes, String.toUTF8_eq_toByteArray, String.toByteArray_ofList]
  exact List.toList_data_toByteArray

theorem bytes_lt_of_lt {chars others : List Char} (less : chars < others) :
    chars.flatMap String.utf8EncodeChar < others.flatMap String.utf8EncodeChar := by
  induction chars generalizing others with
  | nil =>
      cases others with
      | nil => exact absurd less (List.lt_irrefl _)
      | cons d more =>
          rcases List.exists_cons_of_ne_nil (String.utf8EncodeChar_ne_nil (c := d)) with
            ⟨byte, rest, isBytes⟩
          rw [List.flatMap_cons, isBytes]
          exact List.nil_lt_cons _ _
  | cons c rest ih =>
      cases others with
      | nil => exact absurd less (List.not_lt_nil _)
      | cons d more =>
          rw [List.flatMap_cons, List.flatMap_cons]
          rcases List.cons_lt_cons_iff.mp less with lower | ⟨rfl, later⟩
          · exact utf8EncodeChar_lt lower _ _
          · exact List.append_left_lt (ih later)

/-- The bytes of texts are ordered as the texts are. -/
theorem bytes_lt_iff {first second : String} : bytes first < bytes second ↔ first < second := by
  have grows {first second : String} (less : first < second) : bytes first < bytes second := by
    rw [← String.ofList_toList (s := first), ← String.ofList_toList (s := second), bytes_ofList,
      bytes_ofList]
    exact bytes_lt_of_lt less
  refine ⟨?_, grows⟩
  intro less
  by_contra notLess
  by_cases same : second = first
  · rw [same] at less
    exact List.lt_irrefl _ less
  · exact List.lt_asymm less (grows (Std.lt_of_le_of_ne (String.not_lt.mp notLess) same))

end Text
end CommandWiring
