import CommandWiring.Java.Span
import CommandWiring.Proofs.ByteOrder
import CommandWiring.Proofs.Paths
import CommandWiring.Proofs.Positions
import Mathlib.Data.List.TakeWhile

/-!
# Lines of a text

A text is its ended parts, each with a separator behind it, and one last part. So a text has as many
ended parts as it has separators, and a row number, which counts the line feeds before an offset, is
the number of a line unless the offset lies behind a line feed that ends the text.
-/

namespace CommandWiring
namespace Text

open Java (utf8Length utf8Length_cons utf8ByteSize_ofList)

/-!
# Ended parts and the last part
-/

section

variable {α : Type} [DecidableEq α]

/-- `text` is the parts `ended`, each with a separator behind it, and the part `last`. -/
structure IsSplit (separator : α) (text : List α) (ended : List (List α)) (last : List α) :
    Prop where
  parts : splitAt separator text = ended ++ [last]
  whole : text = ended.flatMap (· ++ [separator]) ++ last
  ended : ∀ part ∈ ended, separator ∉ part
  last : separator ∉ last

theorem splitAt_cons (separator c : α) (text : List α) :
    splitAt separator (c :: text) =
      if c = separator then [] :: splitAt separator text
      else (splitAt separator text).modifyHead (List.cons c) := by
  simp only [splitAt_eq_splitOn, List.splitOn_cons_eq_if_modifyHead, beq_iff_eq]

theorem exists_isSplit (separator : α) (text : List α) :
    ∃ ended last, IsSplit separator text ended last := by
  induction text with
  | nil => exact ⟨[], [], rfl, rfl, nofun, nofun⟩
  | cons c rest ih =>
      rcases ih with ⟨ended, last, parts, whole, areEnded, isLast⟩
      by_cases same : c = separator
      · subst same
        refine ⟨[] :: ended, last, ?_, ?_, ?_, isLast⟩
        · rw [splitAt_cons, if_pos rfl, parts]
          rfl
        · rw [whole]
          rfl
        · exact List.forall_mem_cons.mpr ⟨nofun, areEnded⟩
      · have notFirst {part : List α} (free : separator ∉ part) : separator ∉ c :: part := by
          simp [free, Ne.symm same]
        cases ended with
        | nil =>
            refine ⟨[], c :: last, ?_, ?_, nofun, notFirst isLast⟩
            · rw [splitAt_cons, if_neg same, parts]
              rfl
            · rw [whole]
              rfl
        | cons first more =>
            rcases List.forall_mem_cons.mp areEnded with ⟨isFirst, areMore⟩
            refine ⟨(c :: first) :: more, last, ?_, ?_, ?_, isLast⟩
            · rw [splitAt_cons, if_neg same, parts]
              rfl
            · rw [whole]
              rfl
            · exact List.forall_mem_cons.mpr ⟨notFirst isFirst, areMore⟩

theorem separator_notMem_of_mem_splitAt {separator : α} {text part : List α}
    (member : part ∈ splitAt separator text) : separator ∉ part := by
  rcases exists_isSplit separator text with ⟨ended, last, split⟩
  rw [split.parts] at member
  rcases List.mem_append.mp member with isEnded | isLast
  · exact split.ended part isEnded
  · rw [List.mem_singleton.mp isLast]
    exact split.last

end

namespace IsSplit

variable {separator : Char} {text last : List Char} {ended : List (List Char)}

theorem count_eq (split : IsSplit separator text ended last) :
    text.count separator = ended.length := by
  have none : last.count separator = 0 := List.count_eq_zero.mpr split.last
  have each (parts : List (List Char)) (free : ∀ part ∈ parts, separator ∉ part) :
      (parts.flatMap (· ++ [separator])).count separator = parts.length := by
    induction parts with
    | nil => rfl
    | cons first more ih =>
        rcases List.forall_mem_cons.mp free with ⟨isFirst, areMore⟩
        rw [List.flatMap_cons, List.count_append, List.count_append, ih areMore,
          List.count_eq_zero.mpr isFirst, List.count_singleton_self, List.length_cons]
        omega
  rw [split.whole, List.count_append, each ended split.ended, none, Nat.add_zero]

theorem length_le (split : IsSplit separator text ended last) :
    ended.length + last.length ≤ text.length := by
  have many := List.count_le_length (a := separator) (l := ended.flatMap (· ++ [separator]))
  have whole := congrArg List.length split.whole
  have counted := split.count_eq
  rw [split.whole, List.count_append, List.count_eq_zero.mpr split.last] at counted
  rw [List.length_append] at whole
  omega

theorem last_eq_nil (split : IsSplit separator text ended last) (isEmpty : last = []) :
    text = [] ∨ text.getLast? = some separator := by
  rcases List.eq_nil_or_concat ended with rfl | ⟨front, part, rfl⟩
  · left
    rw [split.whole, isEmpty]
    rfl
  · right
    rw [split.whole, isEmpty, List.concat_eq_append, List.flatMap_append]
    simp

end IsSplit

/-!
# Lines
-/

theorem lines_eq {text : String} {ended : List (List Char)} {last : List Char}
    (split : IsSplit '\n' text.toList ended last) :
    lines text = ended.map (fun line => String.ofList (dropCarriageReturn line)) ++
      if last = [] then [] else [String.ofList last] := by
  rw [lines, split.parts, List.dropLast_concat, List.getLast?_concat]
  cases last with
  | nil => rw [if_pos rfl, List.append_nil]
  | cons c rest => rw [if_neg (List.cons_ne_nil c rest)]

theorem length_lines {text : String} {ended : List (List Char)} {last : List Char}
    (split : IsSplit '\n' text.toList ended last) :
    (lines text).length = ended.length + if last = [] then 0 else 1 := by
  rw [lines_eq split, List.length_append, List.length_map]
  split_ifs <;> rfl

theorem dropCarriageReturn_subset (line : List Char) : dropCarriageReturn line ⊆ line := by
  rw [dropCarriageReturn]
  split
  · exact List.dropLast_subset line
  · exact List.Subset.refl line

theorem lineFeed_notMem_of_mem_lines {text line : String} (member : line ∈ lines text) :
    '\n' ∉ line.toList := by
  rcases exists_isSplit '\n' text.toList with ⟨ended, last, split⟩
  rw [lines_eq split] at member
  rcases List.mem_append.mp member with isEnded | isLast
  · rcases List.mem_map.mp isEnded with ⟨part, isPart, rfl⟩
    rw [String.toList_ofList]
    exact fun inside => split.ended part isPart (dropCarriageReturn_subset part inside)
  · split_ifs at isLast with isEmpty
    · cases isLast
    · rw [List.mem_singleton.mp isLast, String.toList_ofList]
      exact split.last

theorem count_lt_length_lines {text : String} {before after : List Char}
    (whole : text.toList = before ++ after) (nonempty : text.toList ≠ [])
    (notAtEnd : text.toList.getLast? = some '\n' -> after ≠ []) :
    before.count '\n' < (lines text).length := by
  rcases exists_isSplit '\n' text.toList with ⟨ended, last, split⟩
  have total := split.count_eq
  rw [whole, List.count_append] at total
  rw [length_lines split]
  by_cases isEmpty : last = []
  · rcases split.last_eq_nil isEmpty with isNil | endsText
    · exact absurd isNil nonempty
    · have ends : after.getLast? = some '\n' := by
        have behind := notAtEnd endsText
        rwa [whole, List.getLast?_append_of_ne_nil _ behind] at endsText
      have counted : 0 < after.count '\n' := List.count_pos_iff.mpr (List.mem_of_getLast? ends)
      rw [if_pos isEmpty]
      omega
  · rw [if_neg isEmpty]
    omega

theorem length_le_utf8Length (text : List Char) : text.length ≤ utf8Length text := by
  induction text with
  | nil => exact Nat.le_refl 0
  | cons c rest ih =>
      have := c.utf8Size_pos
      rw [List.length_cons, utf8Length_cons]
      omega

theorem utf8Length_toList (text : String) : utf8Length text.toList = text.utf8ByteSize := by
  rw [← utf8ByteSize_ofList, String.ofList_toList]

theorem length_lines_le (text : String) : (lines text).length ≤ text.utf8ByteSize := by
  rcases exists_isSplit '\n' text.toList with ⟨ended, last, split⟩
  have chars := split.length_le
  have bytes := length_le_utf8Length text.toList
  rw [utf8Length_toList] at bytes
  rw [length_lines split]
  split_ifs with isEmpty
  · omega
  · have := List.length_pos_iff.mpr isEmpty
    omega

theorem isDigit_of_mem_toString {c : Char} {n : Nat} (member : c ∈ (toString n).toList) :
    c.isDigit = true := by
  have inDigits : c ∈ Nat.toDigits 10 n := by
    rw [← Nat.toList_repr]
    exact member
  exact Nat.isDigit_of_mem_toDigits (by decide) (by decide) inDigits

/-!
# Rows and columns of offsets
-/

/-- `line` is what stands behind the last line feed of `text`. -/
def IsLastLine (line text : List Char) : Prop :=
  '\n' ∉ line ∧ (text = line ∨ ∃ front, text = front ++ '\n' :: line)

theorem exists_isLastLine (text : List Char) : ∃ line, IsLastLine line text := by
  rcases exists_isSplit '\n' text with ⟨ended, last, split⟩
  refine ⟨last, split.last, ?_⟩
  rcases List.eq_nil_or_concat ended with rfl | ⟨front, part, rfl⟩
  · exact .inl split.whole
  · right
    refine ⟨front.flatMap (· ++ ['\n']) ++ part, ?_⟩
    rw [split.whole, List.concat_eq_append, List.flatMap_append]
    simp

theorem toList_toUTF8_ofList (text : List Char) :
    (String.ofList text).toUTF8.toList = text.flatMap String.utf8EncodeChar :=
  (toList_eq_data_toList _).trans (bytes_ofList text)

theorem length_flatMap_utf8EncodeChar (text : List Char) :
    (text.flatMap String.utf8EncodeChar).length = utf8Length text := by
  induction text with
  | nil => rfl
  | cons c rest ih =>
      rw [List.flatMap_cons, List.length_append, ih, utf8Length_cons,
        String.length_utf8EncodeChar]

theorem mem_spread {lead places n : Nat} {b : UInt8} (member : b ∈ spread lead places n) :
    b = UInt8.ofNat (lead + n / 64 ^ places) ∨ ∃ m < 64, b = UInt8.ofNat (m + 128) := by
  induction places generalizing n with
  | zero =>
      left
      rw [pow_zero, Nat.div_one]
      exact List.mem_singleton.mp member
  | succ places ih =>
      rcases List.mem_append.mp member with inFront | isLast
      · rw [pow_succ', ← Nat.div_div_eq_div_mul]
        exact ih inFront
      · exact .inr ⟨n % 64, Nat.mod_lt n (by decide), List.mem_singleton.mp isLast⟩

theorem eq_of_lineFeed_eq_ofNat {n : Nat} (small : n < 256) (same : lineFeed = UInt8.ofNat n) :
    n = 10 := by
  have codes := congrArg UInt8.toNat same
  rw [UInt8.toNat_ofNat_of_lt' small] at codes
  exact codes.symm

theorem lineFeed_notMem_utf8EncodeChar {c : Char} (other : c ≠ '\n') :
    lineFeed ∉ String.utf8EncodeChar c := by
  intro member
  rw [utf8EncodeChar_eq_spread] at member
  rcases mem_spread member with isFirst | ⟨m, small, isLater⟩
  · have first : firstByte c.val.toNat = 10 :=
      eq_of_lineFeed_eq_ofNat (firstByte_lt (code_le c)) isFirst
    have code : c.val.toNat = 10 := by
      unfold firstByte placesOf at first
      split_ifs at first <;> simp only [leadOf, pow_zero, Nat.div_one] at first <;> omega
    exact other (Char.ext (UInt32.toNat_inj.mp code))
  · have := eq_of_lineFeed_eq_ofNat (by omega) isLater
    omega

theorem count_lineFeed (text : List Char) :
    (text.flatMap String.utf8EncodeChar).count lineFeed = text.count '\n' := by
  induction text with
  | nil => rfl
  | cons c rest ih =>
      rw [List.flatMap_cons, List.count_append, ih]
      by_cases isFeed : c = '\n'
      · subst isFeed
        rw [List.count_cons_self, Nat.add_comm]
        rfl
      · rw [List.count_eq_zero.mpr (lineFeed_notMem_utf8EncodeChar isFeed),
          List.count_cons_of_ne isFeed, Nat.zero_add]

theorem takeWhile_lineFeed {line text : List Char} (isLast : IsLastLine line text) :
    ((text.flatMap String.utf8EncodeChar).reverse.takeWhile fun b => b != lineFeed).length =
      utf8Length line := by
  rcases isLast with ⟨free, isText⟩
  have noFeed : ∀ b ∈ (line.flatMap String.utf8EncodeChar).reverse, (b != lineFeed) = true := by
    intro b member
    rcases List.mem_flatMap.mp (List.mem_reverse.mp member) with ⟨c, isChar, inside⟩
    rw [bne_iff_ne]
    rintro rfl
    refine lineFeed_notMem_utf8EncodeChar ?_ inside
    rintro rfl
    exact free isChar
  have whole : (line.flatMap String.utf8EncodeChar).reverse.length = utf8Length line := by
    rw [List.length_reverse, length_flatMap_utf8EncodeChar]
  rcases isText with rfl | ⟨front, rfl⟩
  · rw [List.takeWhile_eq_self_iff.mpr noFeed, whole]
  · have feed : String.utf8EncodeChar '\n' = [lineFeed] := by decide
    rw [List.flatMap_append, List.flatMap_cons, feed, List.reverse_append, List.reverse_append,
      List.append_assoc, List.takeWhile_append_of_pos noFeed, List.length_append, whole]
    rfl

theorem positionOf_utf8Length {line before : List Char} (isLast : IsLastLine line before)
    (after : List Char) :
    positionOf (String.ofList (before ++ after)).toUTF8.toList (utf8Length before) =
      { row := before.count '\n', column := utf8Length line } := by
  have taken : (String.ofList (before ++ after)).toUTF8.toList.take (utf8Length before) =
      before.flatMap String.utf8EncodeChar := by
    rw [toList_toUTF8_ofList, List.flatMap_append, ← length_flatMap_utf8EncodeChar,
      List.take_left]
  rw [positionOf, taken, count_lineFeed, takeWhile_lineFeed isLast]

end Text
end CommandWiring
