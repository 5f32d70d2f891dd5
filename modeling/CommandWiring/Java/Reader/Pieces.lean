import CommandWiring.Java.Reader.Lexeme

/-!
# The pieces make up the text

Every scanner cuts its text in two: what it has read, and what follows. No piece is empty, so
cutting comes to the end of the text, and the pieces in order are the text.
-/

namespace CommandWiring
namespace Java

structure Cut (whole front rest : List Char) : Prop where
  whole : front ++ rest = whole
  nonempty : front ≠ []

theorem Cut.cons {c : Char} {text front rest : List Char} (h : front ++ rest = text) :
    Cut (c :: text) (c :: front) rest where
  whole := by rw [List.cons_append, h]
  nonempty := List.cons_ne_nil c front

theorem Cut.length_lt {whole front rest : List Char} (cut : Cut whole front rest) :
    rest.length < whole.length := by
  rcases cut with ⟨rfl, nonempty⟩
  have := List.length_pos_iff.mpr nonempty
  rw [List.length_append]
  omega

/-!
# Scanners with a reversed front

These scanners are handed what was read before, in reverse, and put it in front.
-/

/-- `front` is what was read before and a part of `text`, and `rest` is the other part. -/
def Continues (before text front rest : List Char) : Prop :=
  ∃ taken, front = before.reverse ++ taken ∧ taken ++ rest = text

theorem Continues.stop (before text : List Char) : Continues before text before.reverse text :=
  ⟨[], by simp, rfl⟩

theorem Continues.step {c : Char} {before text front rest : List Char}
    (h : Continues (c :: before) text front rest) : Continues before (c :: text) front rest := by
  rcases h with ⟨taken, rfl, rfl⟩
  exact ⟨c :: taken, by simp, rfl⟩

theorem Continues.cut {c : Char} {text front rest : List Char}
    (h : Continues [c] text front rest) : Cut (c :: text) front rest := by
  rcases h with ⟨taken, rfl, rfl⟩
  exact Cut.cons rfl

theorem continues_throughCommentEnd? {before text front rest : List Char}
    (h : throughCommentEnd? before text = some (front, rest)) :
    Continues before text front rest := by
  fun_induction throughCommentEnd? before text with
  | case1 before text =>
      rcases Prod.mk.inj (Option.some.inj h) with ⟨rfl, rfl⟩
      exact (Continues.stop _ _).step.step
  | case2 before c text _ ih => exact (ih h).step
  | case3 before => cases h

theorem continues_numberTail {hexadecimal : Bool} {previous : Char} {before text : List Char} :
    Continues before text (numberTail hexadecimal previous before text).1
      (numberTail hexadecimal previous before text).2 := by
  fun_induction numberTail hexadecimal previous before text with
  | case1 previous before => exact .stop before []
  | case2 previous before c text _ ih => exact ih.step
  | case3 previous before c text _ => exact .stop before (c :: text)

theorem continues_throughQuoted {before text : List Char} :
    Continues before text (throughQuoted before text).1 (throughQuoted before text).2 := by
  fun_induction throughQuoted before text with
  | case1 before text ih => exact ih.step.step
  | case2 before c text _ _ ih => exact ih.step
  | case3 before c text _ _ => exact .stop before (c :: text)
  | case4 before => exact .stop before []

theorem continues_throughCharacterEnd? {before text front rest : List Char}
    (h : throughCharacterEnd? before text = some (front, rest)) :
    Continues before text front rest := by
  fun_induction throughCharacterEnd? before text with
  | case1 before text =>
      rcases Prod.mk.inj (Option.some.inj h) with ⟨rfl, rfl⟩
      exact (Continues.stop _ _).step
  | case2 before c text ih => exact (ih h).step.step
  | case3 before text => cases h
  | case4 before c text _ _ _ ih => exact (ih h).step
  | case5 before => cases h

/-!
# Comments
-/

theorem cut_comment? {kind : CommentKind} {text front rest : List Char}
    (h : comment? text = some (kind, front, rest)) : Cut text front rest := by
  unfold comment? at h
  split at h
  · simp only [Option.some.injEq, Prod.mk.injEq] at h
    rcases h with ⟨_, rfl, rfl⟩
    exact ⟨List.takeWhile_append_dropWhile, by simp⟩
  · rename_i text
    rcases Option.map_eq_some_iff.mp h with ⟨⟨found, others⟩, hfound, h⟩
    simp only [Prod.mk.injEq] at h
    rcases h with ⟨_, rfl, rfl⟩
    rcases continues_throughCommentEnd? hfound with ⟨taken, rfl, rfl⟩
    exact Cut.cons rfl
  · cases h

/-!
# Strings
-/

theorem cut_escapeLexeme (kindOf : List Char -> LexemeKind) (rest : List Char) :
    Cut ('\\' :: rest) (escapeLexeme kindOf rest).1.text (escapeLexeme kindOf rest).2 := by
  unfold escapeLexeme
  split
  · exact Cut.cons rfl
  · exact Cut.cons (List.take_append_drop _ _)

theorem cut_stringLexeme (c : Char) (rest : List Char) :
    Cut (c :: rest) (stringLexeme c rest).1.text (stringLexeme c rest).2 := by
  unfold stringLexeme
  split
  · exact Cut.cons rfl
  · split
    · rename_i h
      subst h
      exact cut_escapeLexeme _ rest
    · exact Cut.cons List.takeWhile_append_dropWhile

theorem cut_textPiece {text : List Char} (plain : text.takeWhile isPlain ≠ []) :
    Cut text (textPiece text).1.text (textPiece text).2 := by
  have fragment : Cut text (text.takeWhile isPlain) (text.dropWhile isPlain) :=
    ⟨List.takeWhile_append_dropWhile, plain⟩
  unfold textPiece
  dsimp only
  split
  · rename_i kind comment rest h
    split
    · have cut := cut_comment? h
      refine ⟨?_, by simp [Piece.text, cut.nonempty]⟩
      have blank : text.takeWhile Text.isBlank <+: text := List.takeWhile_prefix _
      rw [Piece.text, List.append_assoc, cut.whole, List.prefix_iff_eq_append.mp blank]
    · exact fragment
  · exact fragment

theorem cut_textBlockPiece (c : Char) (rest : List Char) :
    Cut (c :: rest) (textBlockPiece c rest).1.text (textBlockPiece c rest).2 := by
  unfold textBlockPiece
  split
  · rename_i h
    subst h
    split
    · exact Cut.cons rfl
    · exact continues_throughQuoted.cut
  · split
    · rename_i h
      subst h
      exact cut_escapeLexeme _ rest
    · rename_i notQuote notEscape
      apply cut_textPiece
      have isPlainFront : isPlain c = true := by simp [isPlain, notQuote, notEscape]
      simp [isPlainFront]

/-!
# Code
-/

theorem cut_symbolLexeme (c : Char) (rest : List Char) :
    Cut (c :: rest) (symbolLexeme c rest).1.text (symbolLexeme c rest).2 :=
  Cut.cons (List.take_append_drop _ _)

theorem cut_codeLexeme (c : Char) (rest : List Char) :
    Cut (c :: rest) (codeLexeme c rest).1.text (codeLexeme c rest).2 := by
  unfold codeLexeme
  split
  · exact Cut.cons List.takeWhile_append_dropWhile
  · split
    · exact continues_numberTail.cut
    · split
      · rename_i isQuote
        subst isQuote
        split
        · exact Cut.cons rfl
        · exact Cut.cons rfl
      · split
        · split
          · rename_i h
            exact (continues_throughCharacterEnd? h).cut
          · exact cut_symbolLexeme c rest
        · exact cut_symbolLexeme c rest

theorem cut_codePiece (c : Char) (rest : List Char) :
    Cut (c :: rest) (codePiece c rest).1.text (codePiece c rest).2 := by
  unfold codePiece
  split
  · exact Cut.cons List.takeWhile_append_dropWhile
  · split
    · rename_i h
      exact cut_comment? h
    · exact cut_codeLexeme c rest

theorem cut_frontPiece (enclosures : List Enclosure) (c : Char) (rest : List Char) :
    Cut (c :: rest) (frontPiece enclosures c rest).1.text (frontPiece enclosures c rest).2 := by
  unfold frontPiece
  split
  · exact cut_stringLexeme c rest
  · exact cut_textBlockPiece c rest
  · exact cut_codePiece c rest

/-!
# The whole text
-/

theorem flatMap_text_piecesFrom {fuel : Nat} {enclosures : List Enclosure} {found : Array Piece}
    {text : List Char} (enough : text.length < fuel) :
    (piecesFrom fuel enclosures found text).flatMap Piece.text =
      found.toList.flatMap Piece.text ++ text := by
  induction fuel generalizing enclosures found text with
  | zero => omega
  | succ fuel ih =>
      cases text with
      | nil => simp [piecesFrom]
      | cons c rest =>
          have cut := cut_frontPiece enclosures c rest
          have shorter := cut.length_lt
          rw [piecesFrom, ih (by omega)]
          simp [cut.whole]

theorem flatMap_text_pieces (text : List Char) : (pieces text).flatMap Piece.text = text := by
  unfold pieces
  split
  · rfl
  · rename_i c rest
    split
    · rw [flatMap_text_piecesFrom (Nat.lt_succ_self _)]
      rfl
    · rw [flatMap_text_piecesFrom (Nat.lt_succ_self _)]
      rfl

/-- A piece that is cut off the front of some text. -/
def Piece.IsFront (piece : Piece) : Prop :=
  ∃ enclosures c rest, piece = (frontPiece enclosures c rest).1

theorem isFront_of_piecesFrom (fuel : Nat) (enclosures : List Enclosure) (found : Array Piece)
    (text : List Char) :
    ∃ more, piecesFrom fuel enclosures found text = found.toList ++ more ∧
      ∀ piece ∈ more, piece.IsFront := by
  induction fuel generalizing enclosures found text with
  | zero => exact ⟨[], (List.append_nil _).symm, nofun⟩
  | succ fuel ih =>
      cases text with
      | nil => exact ⟨[], (List.append_nil _).symm, nofun⟩
      | cons c rest =>
          have first : (frontPiece enclosures c rest).1.IsFront := ⟨enclosures, c, rest, rfl⟩
          rw [piecesFrom]
          generalize frontPiece enclosures c rest = front at first ⊢
          rcases front with ⟨piece, behind⟩
          dsimp only
          rcases ih _ (found.push piece) behind with ⟨more, isMore, areFronts⟩
          refine ⟨piece :: more, ?_, List.forall_mem_cons.mpr ⟨first, areFronts⟩⟩
          rw [isMore, Array.toList_push, List.append_assoc, List.singleton_append]

theorem pieces_eq (text : List Char) :
    ∃ mark more, pieces text = mark ++ more ∧ (∀ piece ∈ more, piece.IsFront) ∧
      (mark = [] ∨ mark = [.blank [byteOrderMark]]) := by
  unfold pieces
  split
  · exact ⟨[], [], rfl, nofun, Or.inl rfl⟩
  · next c rest =>
      split
      · next isMark =>
          rcases isFront_of_piecesFrom (rest.length + 1) [] #[.blank [c]] rest with
            ⟨more, isMore, areFronts⟩
          exact ⟨_, more, isMore, areFronts, Or.inr (by rw [isMark])⟩
      · rcases isFront_of_piecesFrom ((c :: rest).length + 1) [] #[] (c :: rest) with
          ⟨more, isMore, areFronts⟩
        exact ⟨[], more, isMore, areFronts, Or.inl rfl⟩

theorem isFront_of_mem_pieces {text : List Char} {piece : Piece} (member : piece ∈ pieces text) :
    piece.IsFront ∨ piece = .blank [byteOrderMark] := by
  rcases pieces_eq text with ⟨mark, more, isPieces, areFronts, isMark⟩
  rw [isPieces] at member
  rcases List.mem_append.mp member with inMark | inMore
  · rcases isMark with rfl | rfl
    · cases inMark
    · exact Or.inr (List.mem_singleton.mp inMark)
  · exact Or.inl (areFronts piece inMore)

theorem isFront_of_mem_tail_pieces {text : List Char} {piece : Piece}
    (member : piece ∈ (pieces text).tail) : piece.IsFront := by
  rcases pieces_eq text with ⟨mark, more, isPieces, areFronts, isMark⟩
  rw [isPieces] at member
  rcases isMark with rfl | rfl
  · exact areFronts piece (List.mem_of_mem_tail member)
  · exact areFronts piece member

theorem ne_nil_of_mem_pieces {text : List Char} {piece : Piece} (member : piece ∈ pieces text) :
    piece.text ≠ [] := by
  rcases isFront_of_mem_pieces member with ⟨enclosures, c, rest, rfl⟩ | rfl
  · exact (cut_frontPiece enclosures c rest).nonempty
  · exact List.cons_ne_nil _ _

/-!
# White space between lexemes

A byte order mark counts as white space at the very front of a text, and there only.
-/

def Piece.IsSpaced (piece : Piece) : Prop :=
  piece.segment.isGap = true -> ∀ c ∈ piece.text, Text.isBlank c = true

theorem isSpaced_textPiece (text : List Char) : (textPiece text).1.IsSpaced := by
  unfold textPiece
  dsimp only
  split
  · split
    · exact nofun
    · exact nofun
  · exact nofun

theorem isSpaced_textBlockPiece (c : Char) (rest : List Char) :
    (textBlockPiece c rest).1.IsSpaced := by
  unfold textBlockPiece
  split
  · split
    · exact nofun
    · exact nofun
  · split
    · exact nofun
    · exact isSpaced_textPiece (c :: rest)

theorem isSpaced_codePiece (c : Char) (rest : List Char) : (codePiece c rest).1.IsSpaced := by
  unfold codePiece
  split
  · next isBlank =>
      intro _ other member
      rcases List.mem_cons.mp member with rfl | inRun
      · exact isBlank
      · exact List.all_eq_true.mp List.all_takeWhile other inRun
  · split
    · exact nofun
    · exact nofun

theorem isSpaced_frontPiece (enclosures : List Enclosure) (c : Char) (rest : List Char) :
    (frontPiece enclosures c rest).1.IsSpaced := by
  unfold frontPiece
  split
  · exact nofun
  · exact isSpaced_textBlockPiece c rest
  · exact isSpaced_codePiece c rest

theorem isSpaced_of_mem_tail_pieces {text : List Char} {piece : Piece}
    (member : piece ∈ (pieces text).tail) : piece.IsSpaced := by
  rcases isFront_of_mem_tail_pieces member with ⟨enclosures, c, rest, rfl⟩
  exact isSpaced_frontPiece enclosures c rest

theorem text_segment (piece : Piece) : piece.segment.text = piece.text := by
  cases piece <;> rfl

/-- A text is cut into its lexemes and comments. -/
def cuttingOf (text : List Char) : Cutting text where
  segments := (pieces text).map Piece.segment
  whole := by
    rw [List.flatMap_map, funext text_segment]
    exact flatMap_text_pieces text
  nonempty := by
    intro segment member
    rcases List.mem_map.mp member with ⟨piece, isPiece, rfl⟩
    rw [text_segment]
    exact ne_nil_of_mem_pieces isPiece
  blank := by
    intro segment member isGap
    rw [← List.map_tail] at member
    rcases List.mem_map.mp member with ⟨piece, isPiece, rfl⟩
    rw [text_segment]
    exact isSpaced_of_mem_tail_pieces isPiece isGap

end Java
end CommandWiring
