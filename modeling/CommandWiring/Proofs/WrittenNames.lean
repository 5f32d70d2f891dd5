import CommandWiring.Java.TypeName
import CommandWiring.Proofs.Leaves
import Mathlib.Data.List.TakeWhile

/-!
# Names read off a text

The simple name of a qualified name is what stands behind its last dot. It can be read off the text
of the whole name if there is no left angle bracket in it and only white space between that dot and
the last word.
-/

namespace CommandWiring

/-!
# Trimming
-/

namespace Text

theorem trimStart_append_cons {c : Char} (notBlank : isBlank c = false) (front rest : List Char) :
    trimStart (front ++ c :: rest) = trimStart front ++ c :: rest := by
  have stops : ¬ isBlank c = true := Bool.eq_false_iff.mp notBlank
  rw [trimStart, trimStart, List.dropWhile_append, List.dropWhile_cons_of_neg stops]
  split
  · next isEmpty => rw [List.isEmpty_iff.mp isEmpty, List.nil_append]
  · rfl

theorem trimStart_blanks {blanks : List Char} (areBlank : ∀ c ∈ blanks, isBlank c = true) :
    trimStart blanks = [] :=
  List.dropWhile_eq_nil_iff.mpr areBlank

theorem trimEnd_concat {c : Char} (notBlank : isBlank c = false) (front : List Char) :
    trimEnd (front ++ [c]) = front ++ [c] := by
  have stops : ¬ isBlank c = true := Bool.eq_false_iff.mp notBlank
  rw [trimEnd, List.reverse_append, List.reverse_singleton, List.singleton_append,
    List.dropWhile_cons_of_neg stops, List.reverse_cons, List.reverse_reverse]

theorem trim_append_blanks {blanks : List Char} (areBlank : ∀ c ∈ blanks, isBlank c = true)
    (text : List Char) : trim (text ++ blanks) = trim text := by
  have atEnd (text : List Char) : trimEnd (text ++ blanks) = trimEnd text := by
    have reversed : ∀ c ∈ blanks.reverse, isBlank c = true :=
      fun c member => areBlank c (List.mem_reverse.mp member)
    rw [trimEnd, List.reverse_append, List.dropWhile_append_of_pos reversed, trimEnd]
  rw [trim, trim, trimStart, List.dropWhile_append]
  split
  · next noText =>
      rw [List.dropWhile_eq_nil_iff.mpr areBlank, trimStart, List.isEmpty_iff.mp noText]
  · exact atEnd _

end Text

namespace Java

/-!
# Names in a text
-/

theorem isBlank_eq_false_of_graphic {c : Char} (low : 0x21 ≤ c.toNat) (high : c.toNat ≤ 0x7E) :
    Text.isBlank c = false := by
  simp [Text.isBlank]
  omega

theorem isBlank_eq_false_of_isAlpha {c : Char} (isAlpha : c.isAlpha = true) :
    Text.isBlank c = false := by
  have inRange : (65 ≤ c.toNat ∧ c.toNat ≤ 90) ∨ (97 ≤ c.toNat ∧ c.toNat ≤ 122) := by
    rcases Bool.or_eq_true_iff.mp isAlpha with isUpper | isLower
    · exact Or.inl (of_decide_eq_true isUpper)
    · rcases Bool.and_eq_true_iff.mp isLower with ⟨low, high⟩
      exact Or.inr ⟨of_decide_eq_true low, of_decide_eq_true high⟩
  exact isBlank_eq_false_of_graphic (by omega) (by omega)

theorem isBlank_eq_false_of_isDigit {c : Char} (isDigit : c.isDigit = true) :
    Text.isBlank c = false := by
  rcases Bool.and_eq_true_iff.mp isDigit with ⟨low, high⟩
  have inRange : 48 ≤ c.toNat ∧ c.toNat ≤ 57 := ⟨of_decide_eq_true low, of_decide_eq_true high⟩
  exact isBlank_eq_false_of_graphic (by omega) (by omega)

theorem isBlank_eq_false_of_continuesName {c : Char} (continues : continuesName c = true) :
    Text.isBlank c = false := by
  simp only [continuesName, startsName, Bool.or_eq_true, Bool.and_eq_true, beq_iff_eq,
    Bool.not_eq_true'] at continues
  rcases continues with (((isAlpha | rfl) | rfl) | ⟨_, notBlank⟩) | isDigit
  · exact isBlank_eq_false_of_isAlpha isAlpha
  · rfl
  · rfl
  · exact notBlank
  · exact isBlank_eq_false_of_isDigit isDigit

def isWrittenName (text : String) : Bool :=
  !text.toList.isEmpty && text.toList.all continuesName

structure IsName (word : List Char) : Prop where
  nonempty : word ≠ []
  continues : ∀ c ∈ word, continuesName c = true

theorem isName_of_isWrittenName {text : String} (isWritten : isWrittenName text = true) :
    IsName text.toList := by
  rw [isWrittenName, Bool.and_eq_true, Bool.not_eq_true', List.all_eq_true] at isWritten
  exact ⟨List.isEmpty_eq_false_iff.mp isWritten.1, isWritten.2⟩

theorem dropBrackets_concat {c : Char} (notBracket : c ≠ ']') (front : List Char) :
    dropBrackets (front ++ [c]) = front ++ [c] := by
  have stops : dropBracketsReversed (c :: front.reverse) = c :: front.reverse := by
    unfold dropBracketsReversed
    split
    · next same => exact absurd (List.cons.inj same).1 notBracket
    · rfl
  rw [dropBrackets, List.reverse_append, List.reverse_singleton, List.singleton_append, stops,
    List.reverse_cons, List.reverse_reverse]

theorem forall_bne_of_notMem {text : List Char} {separator : Char} (notMem : separator ∉ text) :
    ∀ c ∈ text, (c != separator) = true := by
  intro c member
  rw [bne_iff_ne]
  rintro rfl
  exact notMem member

theorem lastSegment_of_dot {segment : List Char} (noDot : '.' ∉ segment) (front : List Char) :
    lastSegment (front ++ '.' :: segment) = segment := by
  have allPass := forall_bne_of_notMem fun member => noDot (List.mem_reverse.mp member)
  rw [lastSegment, List.reverse_append, List.reverse_cons, List.append_assoc,
    List.takeWhile_append_of_pos allPass, List.singleton_append,
    List.takeWhile_cons_of_neg (by decide), List.append_nil, List.reverse_reverse]

theorem lastSegment_of_notMem {text : List Char} (noDot : '.' ∉ text) :
    lastSegment text = text := by
  have allPass := forall_bne_of_notMem fun member => noDot (List.mem_reverse.mp member)
  rw [lastSegment, List.takeWhile_eq_self_iff.mpr allPass, List.reverse_reverse]

namespace IsName

variable {word : List Char}

theorem notMem (name : IsName word) {c : Char} (outside : continuesName c = false) : c ∉ word := by
  intro member
  rw [name.continues c member] at outside
  cases outside

theorem notBlank (name : IsName word) : ∀ c ∈ word, Text.isBlank c = false :=
  fun c member => isBlank_eq_false_of_continuesName (name.continues c member)

theorem exists_last (name : IsName word) : ∃ init, ∃ last ∈ word, word = init ++ [last] := by
  rcases List.eq_nil_or_concat word with isNil | ⟨init, last, rfl⟩
  · exact absurd isNil name.nonempty
  · rw [List.concat_eq_append]
    exact ⟨init, last, List.mem_append_right init (List.mem_singleton_self last), rfl⟩

theorem trimEnd (name : IsName word) (front : List Char) :
    Text.trimEnd (front ++ word) = front ++ word := by
  rcases name.exists_last with ⟨init, last, member, isConcat⟩
  rw [isConcat, ← List.append_assoc]
  exact Text.trimEnd_concat (name.notBlank last member) _

theorem dropBrackets (name : IsName word) (front : List Char) :
    dropBrackets (front ++ word) = front ++ word := by
  rcases name.exists_last with ⟨init, last, member, isConcat⟩
  have notBracket : last ≠ ']' := by
    rintro rfl
    exact name.notMem (by decide) member
  rw [isConcat, ← List.append_assoc]
  exact dropBrackets_concat notBracket _

theorem trim_of_blanks (name : IsName word) {blanks : List Char}
    (areBlank : ∀ c ∈ blanks, Text.isBlank c = true) : Text.trim (blanks ++ word) = word := by
  cases word with
  | nil => exact absurd rfl name.nonempty
  | cons c rest =>
      rw [Text.trim, Text.trimStart_append_cons (name.notBlank c List.mem_cons_self),
        Text.trimStart_blanks areBlank]
      exact name.trimEnd []

theorem trim (name : IsName word) {c : Char} (notBlank : Text.isBlank c = false)
    (front middle : List Char) :
    Text.trim (front ++ c :: (middle ++ word)) = Text.trimStart front ++ c :: (middle ++ word) := by
  have regrouped (text : List Char) :
      text ++ c :: (middle ++ word) = (text ++ c :: middle) ++ word := by
    rw [List.append_assoc, List.cons_append]
  rw [Text.trim, Text.trimStart_append_cons notBlank, regrouped, name.trimEnd]

theorem simpleNameChars (name : IsName word) : simpleNameChars word = word := by
  have noAngle : ∀ c ∈ word, (c != '<') = true := forall_bne_of_notMem (name.notMem (by decide))
  have noBlanks : ∀ c ∈ ([] : List Char), Text.isBlank c = true := nofun
  have trimmed : Text.trim word = word := name.trim_of_blanks noBlanks
  have noBrackets : Java.dropBrackets word = word := name.dropBrackets []
  rw [Java.simpleNameChars, List.takeWhile_eq_self_iff.mpr noAngle, trimmed, noBrackets, trimmed,
    lastSegment_of_notMem (name.notMem (by decide)), trimmed]

theorem simpleNameChars_qualified (name : IsName word) {front blanks : List Char}
    (areBlank : ∀ c ∈ blanks, Text.isBlank c = true)
    (noAngle : '<' ∉ front ++ '.' :: (blanks ++ word)) :
    Java.simpleNameChars (front ++ '.' :: (blanks ++ word)) = word := by
  have noDot : '.' ∉ blanks ++ word := by
    rw [List.mem_append, not_or]
    refine ⟨?_, name.notMem (by decide)⟩
    intro member
    exact absurd (areBlank '.' member) (by decide)
  have dotStays : Text.isBlank '.' = false := rfl
  have noBrackets (text : List Char) : Java.dropBrackets (text ++ '.' :: (blanks ++ word)) =
      text ++ '.' :: (blanks ++ word) := by
    have regrouped : text ++ '.' :: (blanks ++ word) = (text ++ '.' :: blanks) ++ word := by
      rw [List.append_assoc, List.cons_append]
    rw [regrouped]
    exact name.dropBrackets _
  rw [Java.simpleNameChars, List.takeWhile_eq_self_iff.mpr (forall_bne_of_notMem noAngle),
    name.trim dotStays, noBrackets, name.trim dotStays, lastSegment_of_dot noDot,
    name.trim_of_blanks areBlank]

end IsName

/-!
# Texts of segments
-/

def spelled (segments : List Segment) : List Char :=
  segments.flatMap Segment.text

theorem spelled_append (first second : List Segment) :
    spelled (first ++ second) = spelled first ++ spelled second :=
  List.flatMap_append

theorem spelled_cons (segment : Segment) (rest : List Segment) :
    spelled (segment :: rest) = segment.text ++ spelled rest :=
  List.flatMap_cons

theorem exists_segments_of_append {start : Nat} {segments : List Segment}
    {first second : List Span} (isSplit : leafSpans start segments = first ++ second) :
    ∃ front rest, segments = front ++ rest ∧ leafSpans start front = first ∧
      leafSpans (start + utf8Length (spelled front)) rest = second := by
  induction segments generalizing start first with
  | nil =>
      rcases List.append_eq_nil_iff.mp isSplit.symm with ⟨rfl, rfl⟩
      exact ⟨[], [], rfl, rfl, rfl⟩
  | cons segment segments ih =>
      cases first with
      | nil => exact ⟨[], segment :: segments, rfl, rfl, isSplit⟩
      | cons span more =>
          cases segment with
          | gap text =>
              rcases ih isSplit with ⟨front, rest, rfl, isFront, isRest⟩
              refine ⟨.gap text :: front, rest, rfl, isFront, ?_⟩
              rw [spelled_cons, utf8Length_append, ← Nat.add_assoc]
              exact isRest
          | leaf text =>
              rcases List.cons.inj isSplit with ⟨isSpan, isMore⟩
              rcases ih isMore with ⟨front, rest, rfl, isFront, isRest⟩
              refine ⟨.leaf text :: front, rest, rfl, ?_, ?_⟩
              · rw [leafSpans, isFront, ← isSpan]
              · rw [spelled_cons, utf8Length_append, ← Nat.add_assoc]
                exact isRest

theorem exists_leaf_of_cons {start : Nat} {segments : List Segment} {span : Span}
    {more : List Span} (isSplit : leafSpans start segments = span :: more) :
    ∃ gaps text rest, segments = gaps ++ .leaf text :: rest ∧
      (∀ gap ∈ gaps, gap.isGap = true) ∧ span.start = start + utf8Length (spelled gaps) ∧
      span.stop = span.start + utf8Length text ∧ leafSpans span.stop rest = more := by
  induction segments generalizing start with
  | nil => cases isSplit
  | cons segment segments ih =>
      cases segment with
      | gap text =>
          rcases ih isSplit with ⟨gaps, leaf, rest, rfl, areGaps, isStart, others⟩
          refine ⟨.gap text :: gaps, leaf, rest, rfl, List.forall_mem_cons.mpr ⟨rfl, areGaps⟩,
            ?_, others⟩
          rw [isStart, spelled_cons, utf8Length_append, Nat.add_assoc]
      | leaf text =>
          rcases List.cons.inj isSplit with ⟨rfl, isMore⟩
          exact ⟨[], text, segments, rfl, nofun, rfl, rfl, isMore⟩

theorem Cutting.areBlank_behind {text : List Char} (cutting : Cutting text)
    {front gaps rest : List Segment} {segment : Segment}
    (isSplit : cutting.segments = front ++ segment :: (gaps ++ rest))
    (areGaps : ∀ gap ∈ gaps, gap.isGap = true) : ∀ c ∈ spelled gaps, Text.isBlank c = true := by
  intro c member
  rcases List.mem_flatMap.mp member with ⟨gap, isGap, inGap⟩
  have inTail : gap ∈ cutting.segments.tail := by
    rw [isSplit]
    cases front with
    | nil => exact List.mem_append_left rest isGap
    | cons first front =>
        exact List.mem_append_right front
          (List.mem_cons_of_mem segment (List.mem_append_left rest isGap))
  exact cutting.blank gap inTail (areGaps gap isGap) c inGap

/-!
# Spans and what they cover
-/

def Span.Covers (text : List Char) (span : Span) (part : List Char) : Prop :=
  ∃ before after, text = before ++ part ++ after ∧ span.start = utf8Length before ∧
    span.stop = utf8Length (before ++ part)

theorem Span.Covers.slice? {text : String} {span : Span} {part : List Char}
    (covers : span.Covers text.toList part) :
    Text.slice? text span.start span.stop = some (String.ofList part) := by
  rcases covers with ⟨before, after, isText, isStart, isStop⟩
  have whole : text = String.ofList before ++ String.ofList part ++ String.ofList after := by
    rw [← String.ofList_append, ← String.ofList_append, ← isText, String.ofList_toList]
  rw [isStart, isStop, utf8Length_append, ← utf8ByteSize_ofList, ← utf8ByteSize_ofList, whole]
  exact Text.slice?_append _ _ _

theorem Document.textOf_of_covers {document : Document} {span : Span} {part : List Char}
    (covers : span.Covers document.text.toList part) :
    document.textOf span = String.ofList part := by
  rw [textOf, covers.slice?]
  rfl

theorem Cutting.exists_covers_of_mem_spans {text : List Char} (cutting : Cutting text) {span : Span}
    (member : span ∈ cutting.spans) : ∃ part ≠ [], span.Covers text part := by
  rcases @exists_leaf_of_mem_leafSpans [] _ _ member with
    ⟨front, part, rest, isSplit, isStart, isStop⟩
  refine ⟨part, ?_, front.flatMap Segment.text, rest.flatMap Segment.text, ?_, isStart, isStop⟩
  · refine cutting.nonempty (.leaf part) ?_
    rw [isSplit]
    exact List.mem_append_right _ List.mem_cons_self
  · rw [← cutting.whole, isSplit, List.flatMap_append, List.flatMap_cons, List.append_assoc]
    rfl

theorem exists_prefix_of_isBoundary {text before after : List Char} {offset : Nat}
    (isText : text = before ++ after) (isBoundary : IsBoundary text offset)
    (le : offset ≤ utf8Length before) :
    ∃ front rest, before = front ++ rest ∧ offset = utf8Length front := by
  rcases isBoundary with ⟨front, behind, alsoText, rfl⟩
  rcases List.append_eq_append_iff.mp (isText.symm.trans alsoText) with
    ⟨more, isFront, _⟩ | ⟨rest, isBefore, _⟩
  · rw [isFront, utf8Length_append] at le ⊢
    have noMore : more = [] := by
      by_contra nonempty
      have := utf8Length_pos nonempty
      omega
    exact ⟨before, [], by rw [List.append_nil], by rw [noMore]; rfl⟩
  · exact ⟨front, rest, isBefore, rfl⟩

theorem Cutting.exists_covers_of_neighbours {text : List Char} (cutting : Cutting text)
    {before after : List Span} {dot word : Span} {start : Nat}
    (isRun : cutting.spans = before ++ dot :: word :: after)
    (isBoundary : IsBoundary text start) (le : start ≤ dot.start) :
    ∃ front point blanks name,
      Span.Covers text ⟨start, word.stop⟩ (front ++ (point ++ (blanks ++ name))) ∧
        dot.Covers text point ∧ word.Covers text name ∧
        ∀ c ∈ blanks, Text.isBlank c = true := by
  rcases exists_segments_of_append isRun with ⟨outer, inner, isSegments, _, isInner⟩
  rcases exists_leaf_of_cons isInner with
    ⟨gapBefore, point, behindDot, rfl, _, dotStart, dotStop, isBehind⟩
  rcases exists_leaf_of_cons isBehind with
    ⟨gapBehind, name, behindWord, rfl, areGaps, wordStart, wordStop, _⟩
  have atDot : cutting.segments = (outer ++ gapBefore) ++
      .leaf point :: (gapBehind ++ .leaf name :: behindWord) := by
    rw [isSegments, List.append_assoc]
  -- the text is taken apart in front of the dot, behind it, and around the word
  let leading := spelled (outer ++ gapBefore)
  let blanks := spelled gapBehind
  have isText : text = leading ++ (point ++ (blanks ++ (name ++ spelled behindWord))) := by
    rw [← cutting.whole, atDot]
    have behind : spelled (.leaf point :: (gapBehind ++ .leaf name :: behindWord)) =
        point ++ (blanks ++ (name ++ spelled behindWord)) := by
      rw [spelled_cons, spelled_append, spelled_cons]
      rfl
    rw [← behind]
    exact spelled_append _ _
  have isDotStart : dot.start = utf8Length leading := by
    rw [dotStart, Nat.zero_add, ← utf8Length_append, ← spelled_append]
  have isDotStop : dot.stop = utf8Length (leading ++ point) := by
    rw [dotStop, isDotStart, utf8Length_append]
  have isWordStart : word.start = utf8Length (leading ++ point ++ blanks) := by
    rw [wordStart, isDotStop, utf8Length_append (leading ++ point)]
  have isWordStop : word.stop = utf8Length (leading ++ point ++ blanks ++ name) := by
    rw [wordStop, isWordStart, utf8Length_append _ name]
  rcases exists_prefix_of_isBoundary isText isBoundary (isDotStart ▸ le) with
    ⟨outside, front, isLeading, rfl⟩
  refine ⟨front, point, blanks, name, ⟨outside, spelled behindWord, ?_, rfl, ?_⟩,
    ⟨leading, blanks ++ (name ++ spelled behindWord), ?_, isDotStart, isDotStop⟩,
    ⟨leading ++ point ++ blanks, spelled behindWord, ?_, isWordStart, isWordStop⟩,
    cutting.areBlank_behind atDot areGaps⟩
  · rw [isText, isLeading]
    simp only [List.append_assoc]
  · show word.stop = _
    rw [isWordStop, isLeading]
    simp only [List.append_assoc]
  · rw [isText]
    simp only [List.append_assoc]
  · rw [isText]
    simp only [List.append_assoc]

/-!
# Texts of words and of names
-/

section

variable {document : Document}

theorem Document.textOf_of_not_lt {span : Span} (notFilled : ¬ span.start < span.stop) :
    document.textOf span = "" := by
  rw [textOf, Text.slice?]
  split
  · next inside =>
      have same : span.start = span.stop := Nat.le_antisymm inside.1 (Nat.le_of_not_lt notFilled)
      rw [same, ByteArray.extract_same]
      rfl
  · rfl

theorem Document.lt_of_textOf_ne_empty {span : Span} (nonempty : document.textOf span ≠ "") :
    span.start < span.stop := by
  by_cases filled : span.start < span.stop
  · exact filled
  · exact absurd (textOf_of_not_lt filled) nonempty

variable {tree : Tree} {construct : Construct} (lies : tree.LiesIn document.text)
  (isNode : tree.construct? = some construct)

include lies isNode

theorem textOf_ne_empty_of_word (isWord : construct.isWord = true) (filled : tree.IsFilled) :
    document.textOf tree.span ≠ "" := by
  rcases lies.cut with ⟨cutting, inside⟩
  have member : tree.span ∈ cutting.spans := by
    apply inside.subset
    rw [lies.leaves_of_word isNode isWord filled]
    exact List.mem_singleton_self _
  rcases cutting.exists_covers_of_mem_spans member with ⟨part, nonempty, covers⟩
  rw [Document.textOf_of_covers covers]
  intro isEmpty
  exact nonempty (String.ofList_eq_empty_iff.mp isEmpty)

/-- The text of a tree that ends in a dot and a word, neither of them missing. -/
theorem exists_covers_of_children {front : List Tree} {dot : Span} {word : Tree}
    {wanted : Construct} (notUnit : construct.isUnit = false)
    (isChildren : tree.children = front ++ [.token dot, word])
    (dotFilled : dot.start < dot.stop) (isWanted : word.construct? = some wanted)
    (isWord : wanted.isWord = true) (wordFilled : word.IsFilled) :
    ∃ before point blanks name,
      tree.span.Covers document.text.toList (before ++ (point ++ (blanks ++ name))) ∧
        dot.Covers document.text.toList point ∧ word.span.Covers document.text.toList name ∧
        ∀ c ∈ blanks, Text.isBlank c = true := by
  have isMember : word ∈ tree.children := by
    rw [isChildren]
    simp
  have dotInside : tree.span.start ≤ dot.start := by
    have isPart : Tree.token dot ∈ tree.children := by
      rw [isChildren]
      simp
    exact (lies.ordered.between.forward (List.mem_map_of_mem isPart)).1
  have isStop : word.span.stop = tree.span.stop := by
    refine (lies.shaped.hasShape isNode).stops notUnit word ?_
    rw [isChildren]
    simp
  have isLeaves : tree.leaves = Tree.leavesOf front ++ [dot, word.span] := by
    rw [Tree.leaves_eq isNode, isChildren, Tree.leavesOf_append, Tree.leavesOf, Tree.leavesOf,
      Tree.leaves_token_of_lt dotFilled,
      (lies.child isMember).leaves_of_word isWanted isWord wordFilled]
    rfl
  rcases lies.cut with ⟨cutting, before, after, isRun⟩
  rw [isLeaves] at isRun
  have isNeighbours : cutting.spans =
      (before ++ Tree.leavesOf front) ++ dot :: word.span :: after := by
    rw [← isRun]
    simp
  have covers := cutting.exists_covers_of_neighbours isNeighbours lies.bounded.here.start dotInside
  rwa [isStop] at covers

end

end Java
end CommandWiring
