import CommandWiring.Text.Lines

/-!
# Rows and columns

Different offsets of a text have different positions, and neither coordinate is larger than the
offset.
-/

namespace CommandWiring
namespace Text

theorem row_positionOf_le (bytes : List UInt8) (byte : Nat) :
    (positionOf bytes byte).row ≤ byte := by
  have count := List.count_le_length (a := lineFeed) (l := bytes.take byte)
  have length := List.length_take_le byte bytes
  exact Nat.le_trans count length

theorem column_positionOf_le (bytes : List UInt8) (byte : Nat) :
    (positionOf bytes byte).column ≤ byte := by
  have taken := (List.takeWhile_sublist (fun b => b != lineFeed)
    (l := (bytes.take byte).reverse)).length_le
  rw [List.length_reverse] at taken
  exact Nat.le_trans taken (List.length_take_le byte bytes)

theorem column_add_of_row_eq {bytes : List UInt8} {byte more : Nat}
    (le : byte + more ≤ bytes.length)
    (sameRow : (positionOf bytes byte).row = (positionOf bytes (byte + more)).row) :
    (positionOf bytes (byte + more)).column = (positionOf bytes byte).column + more := by
  have noFeed : ∀ b ∈ ((bytes.drop byte).take more).reverse, (b != lineFeed) = true := by
    intro b member
    rw [List.mem_reverse] at member
    simp only [positionOf, List.take_add, List.count_append] at sameRow
    have none : ((bytes.drop byte).take more).count lineFeed = 0 := by omega
    rw [bne_iff_ne]
    intro same
    subst same
    exact absurd member (List.count_eq_zero.mp none)
  simp only [positionOf, List.take_add, List.reverse_append]
  rw [List.takeWhile_append_of_pos noFeed, List.length_append, List.length_reverse,
    List.length_take, List.length_drop]
  omega

theorem positionOf_injective {bytes : List UInt8} {first second : Nat}
    (firstLe : first ≤ bytes.length) (secondLe : second ≤ bytes.length)
    (same : positionOf bytes first = positionOf bytes second) : first = second := by
  have sameRow := congrArg Position.row same
  have sameColumn := congrArg Position.column same
  rcases Nat.le_total first second with le | le
  · rcases Nat.exists_eq_add_of_le le with ⟨more, rfl⟩
    have := column_add_of_row_eq secondLe sameRow
    omega
  · rcases Nat.exists_eq_add_of_le le with ⟨more, rfl⟩
    have := column_add_of_row_eq firstLe sameRow.symm
    omega

theorem toList_eq_data_toList (bytes : ByteArray) : bytes.toList = bytes.data.toList := by
  have loop (index : Nat) (taken : List UInt8) : ByteArray.toList.loop bytes index taken =
      taken.reverse ++ bytes.data.toList.drop index := by
    fun_induction ByteArray.toList.loop bytes index taken with
    | case1 index taken less ih =>
        have inside : index < bytes.data.toList.length := less
        rw [ih, List.drop_eq_getElem_cons inside]
        simp [ByteArray.get!, less]
    | case2 index taken notLess =>
        have outside : bytes.data.toList.length ≤ index := Nat.le_of_not_lt notLess
        rw [List.drop_eq_nil_of_le outside, List.append_nil]
  rw [ByteArray.toList, loop]
  rfl

theorem length_toList (bytes : ByteArray) : bytes.toList.length = bytes.size := by
  rw [toList_eq_data_toList]
  rfl

end Text
end CommandWiring
