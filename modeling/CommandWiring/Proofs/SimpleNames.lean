import CommandWiring.Proofs.WrittenNames

/-!
# Simple names

A simple name has no type arguments, no dots, no white space around it and no array suffix, and it
is its own simple name. What is read off a written type is one, unless there is white space between
two array suffixes: only those behind the white space are taken off.
-/

namespace CommandWiring

/-!
# Trimmed texts
-/

namespace Text

/-- No white space at either end. -/
structure IsTrimmed (text : List Char) : Prop where
  start : ∀ c ∈ text.head?, isBlank c = false
  stop : ∀ c ∈ text.getLast?, isBlank c = false

theorem trimStart_of_head? {text : List Char} (start : ∀ c ∈ text.head?, isBlank c = false) :
    trimStart text = text := by
  cases text with
  | nil => rfl
  | cons c rest => exact trimStart_append_cons (start c rfl) [] rest

theorem trimEnd_of_getLast? {text : List Char} (stop : ∀ c ∈ text.getLast?, isBlank c = false) :
    trimEnd text = text := by
  rcases List.eq_nil_or_concat text with rfl | ⟨front, c, rfl⟩
  · rfl
  · rw [List.concat_eq_append] at stop ⊢
    exact trimEnd_concat (stop c List.getLast?_concat) front

theorem IsTrimmed.trim_eq {text : List Char} (trimmed : IsTrimmed text) : trim text = text := by
  rw [trim, trimStart_of_head? trimmed.start, trimEnd_of_getLast? trimmed.stop]

theorem exists_append_trimStart (text : List Char) :
    ∃ blanks, (∀ c ∈ blanks, isBlank c = true) ∧ blanks ++ trimStart text = text :=
  ⟨text.takeWhile isBlank, fun _ member => List.mem_takeWhile_imp member,
    List.takeWhile_append_dropWhile⟩

theorem exists_trimEnd_append (text : List Char) :
    ∃ blanks, (∀ c ∈ blanks, isBlank c = true) ∧ trimEnd text ++ blanks = text := by
  rcases exists_append_trimStart text.reverse with ⟨blanks, areBlank, whole⟩
  refine ⟨blanks.reverse, fun c member => areBlank c (List.mem_reverse.mp member), ?_⟩
  rw [trimEnd, ← List.reverse_append]
  exact List.reverse_eq_iff.mpr whole

theorem exists_append_trim_append (text : List Char) :
    ∃ before after, (∀ c ∈ before, isBlank c = true) ∧ (∀ c ∈ after, isBlank c = true) ∧
      before ++ trim text ++ after = text := by
  rcases exists_append_trimStart text with ⟨before, blankBefore, isText⟩
  rcases exists_trimEnd_append (trimStart text) with ⟨after, blankAfter, isRest⟩
  refine ⟨before, after, blankBefore, blankAfter, ?_⟩
  rw [trim, List.append_assoc, isRest, isText]

theorem isBlank_of_mem_head?_trimStart {text : List Char} {c : Char}
    (isFirst : c ∈ (trimStart text).head?) : isBlank c = false := by
  have stops := List.head?_dropWhile_not isBlank text
  rw [trimStart, Option.mem_def] at isFirst
  rw [isFirst] at stops
  exact stops

theorem isTrimmed_trim (text : List Char) : IsTrimmed (trim text) where
  start := by
    intro c isFirst
    rcases exists_trimEnd_append (trimStart text) with ⟨blanks, _, whole⟩
    have isFirst : (trimEnd (trimStart text)).head? = some c := isFirst
    have isStart : (trimStart text).head? = some c := by
      rw [← whole, List.head?_append, isFirst]
      rfl
    exact isBlank_of_mem_head?_trimStart isStart
  stop := by
    intro c isLast
    rw [trim, trimEnd, List.getLast?_reverse] at isLast
    exact isBlank_of_mem_head?_trimStart isLast

theorem trim_subset (text : List Char) : trim text ⊆ text := by
  rcases exists_append_trim_append text with ⟨before, after, _, _, whole⟩
  intro c member
  rw [← whole]
  exact List.mem_append_left after (List.mem_append_right before member)

theorem length_trim_le (text : List Char) : (trim text).length ≤ text.length := by
  rcases exists_append_trim_append text with ⟨before, after, _, _, whole⟩
  have lengths := congrArg List.length whole
  rw [List.length_append, List.length_append] at lengths
  omega

theorem trim_between {first last : Char} (notBlank : isBlank first = false)
    (lastNotBlank : isBlank last = false) (front middle : List Char) :
    trim (front ++ first :: (middle ++ [last])) =
      trimStart front ++ first :: (middle ++ [last]) := by
  have regrouped (text : List Char) :
      text ++ first :: (middle ++ [last]) = (text ++ first :: middle) ++ [last] := by
    rw [List.append_assoc, List.cons_append]
  rw [trim, trimStart_append_cons notBlank, regrouped, trimEnd_concat lastNotBlank]

end Text

namespace Java

/-!
# Array suffixes
-/

def arraySuffix : List Char :=
  ['[', ']']

def arraySuffixes (count : Nat) : List Char :=
  (List.replicate count arraySuffix).flatten

theorem arraySuffixes_succ (count : Nat) :
    arraySuffixes (count + 1) = arraySuffixes count ++ arraySuffix := by
  rw [arraySuffixes, List.replicate_succ', List.flatten_append, List.flatten_singleton]
  rfl

theorem dropBrackets_append_arraySuffix (text : List Char) :
    dropBrackets (text ++ arraySuffix) = dropBrackets text := by
  rw [dropBrackets, List.reverse_append]
  rfl

theorem dropBrackets_append_arraySuffixes (text : List Char) (count : Nat) :
    dropBrackets (text ++ arraySuffixes count) = dropBrackets text := by
  induction count with
  | zero => rw [arraySuffixes, List.replicate_zero, List.flatten_nil, List.append_nil]
  | succ count ih =>
      rw [arraySuffixes_succ, ← List.append_assoc, dropBrackets_append_arraySuffix, ih]

theorem dropBrackets_of_not_suffix {text : List Char} (bare : ¬ arraySuffix <:+ text) :
    dropBrackets text = text := by
  have stops : dropBracketsReversed text.reverse = text.reverse := by
    unfold dropBracketsReversed
    split
    · next rest isReversed =>
        have isText : text = rest.reverse ++ arraySuffix := by
          rw [← List.reverse_reverse text, isReversed]
          simp [arraySuffix]
        exact absurd ⟨rest.reverse, isText.symm⟩ bare
    · rfl
  rw [dropBrackets, stops, List.reverse_reverse]

theorem exists_dropBrackets_append (text : List Char) :
    ∃ count, dropBrackets text ++ arraySuffixes count = text ∧
      ¬ arraySuffix <:+ dropBrackets text := by
  induction h : text.length using Nat.strong_induction_on generalizing text with
  | _ length ih =>
      by_cases ends : arraySuffix <:+ text
      · rcases ends with ⟨front, rfl⟩
        have shorter : front.length < length := by
          rw [← h, List.length_append]
          exact Nat.lt_add_of_pos_right (by decide)
        rcases ih front.length shorter front rfl with ⟨count, whole, bare⟩
        rw [dropBrackets_append_arraySuffix]
        refine ⟨count + 1, ?_, bare⟩
        rw [arraySuffixes_succ, ← List.append_assoc, whole]
      · refine ⟨0, ?_, ?_⟩
        · rw [dropBrackets_of_not_suffix ends]
          exact List.append_nil text
        · rw [dropBrackets_of_not_suffix ends]
          exact ends

theorem length_dropBrackets_lt {text : List Char} (ends : arraySuffix <:+ text) :
    (dropBrackets text).length < text.length := by
  rcases ends with ⟨front, rfl⟩
  rcases exists_dropBrackets_append front with ⟨count, whole, _⟩
  have lengths := congrArg List.length whole
  rw [List.length_append] at lengths
  rw [dropBrackets_append_arraySuffix, List.length_append, arraySuffix, List.length_cons]
  omega

/-!
# Last segments
-/

theorem lastSegment_suffix (text : List Char) : lastSegment text <:+ text := by
  rw [lastSegment, ← List.reverse_prefix, List.reverse_reverse]
  exact List.takeWhile_prefix _

theorem dot_notMem_lastSegment (text : List Char) : '.' ∉ lastSegment text := by
  intro member
  have passes := List.mem_takeWhile_imp (List.mem_reverse.mp member)
  cases passes

theorem lastSegment_append_arraySuffix (text : List Char) :
    lastSegment (text ++ arraySuffix) = lastSegment text ++ arraySuffix := by
  have passes : ∀ c ∈ arraySuffix.reverse, (c != '.') = true := by simp [arraySuffix]
  rw [lastSegment, List.reverse_append, List.takeWhile_append_of_pos passes, List.reverse_append,
    List.reverse_reverse, lastSegment]

theorem trim_append_arraySuffix (text : List Char) :
    Text.trim (text ++ arraySuffix) = Text.trimStart text ++ arraySuffix :=
  Text.trim_between rfl rfl text []

theorem arraySuffix_suffix_trim_lastSegment_iff {text : List Char}
    (stop : ∀ c ∈ text.getLast?, Text.isBlank c = false) :
    arraySuffix <:+ Text.trim (lastSegment text) ↔ arraySuffix <:+ text := by
  constructor
  · intro ends
    have sameEnd : ∀ c ∈ (Text.trimStart (lastSegment text)).getLast?, Text.isBlank c = false := by
      intro c isLast
      have behind := (List.dropWhile_suffix Text.isBlank).trans (lastSegment_suffix text)
      rcases behind with ⟨front, whole⟩
      apply stop c
      have isLast : (List.dropWhile Text.isBlank (lastSegment text)).getLast? = some c := isLast
      rw [← whole, List.getLast?_append, isLast]
      rfl
    rw [Text.trim, Text.trimEnd_of_getLast? sameEnd] at ends
    exact ends.trans ((List.dropWhile_suffix _).trans (lastSegment_suffix text))
  · intro ends
    rcases ends with ⟨front, rfl⟩
    rw [lastSegment_append_arraySuffix, trim_append_arraySuffix]
    exact List.suffix_append _ _

/-!
# Simple names
-/

structure IsSimpleName (name : List Char) : Prop where
  noAngle : '<' ∉ name
  noDot : '.' ∉ name
  trimmed : Text.IsTrimmed name
  bare : ¬ arraySuffix <:+ name

theorem angle_notMem_simpleNameChars (text : List Char) : '<' ∉ simpleNameChars text := by
  intro member
  have inSegment := Text.trim_subset _ member
  have inBare := Text.trim_subset _ ((lastSegment_suffix _).subset inSegment)
  rcases exists_dropBrackets_append (Text.trim (text.takeWhile (· != '<'))) with ⟨_, whole, _⟩
  have inBase : '<' ∈ Text.trim (text.takeWhile (· != '<')) := by
    rw [← whole]
    exact List.mem_append_left _ inBare
  have passes := List.mem_takeWhile_imp (Text.trim_subset _ inBase)
  cases passes

theorem dot_notMem_simpleNameChars (text : List Char) : '.' ∉ simpleNameChars text :=
  fun member => dot_notMem_lastSegment _ (Text.trim_subset _ member)

theorem isTrimmed_simpleNameChars (text : List Char) : Text.IsTrimmed (simpleNameChars text) :=
  Text.isTrimmed_trim _

theorem length_simpleNameChars_le (text : List Char) :
    (simpleNameChars text).length ≤
      (dropBrackets (Text.trim (text.takeWhile (· != '<')))).length :=
  calc (simpleNameChars text).length
    _ ≤ (lastSegment (Text.trim (dropBrackets (Text.trim (text.takeWhile (· != '<')))))).length :=
        Text.length_trim_le _
    _ ≤ (Text.trim (dropBrackets (Text.trim (text.takeWhile (· != '<'))))).length :=
        (lastSegment_suffix _).length_le
    _ ≤ (dropBrackets (Text.trim (text.takeWhile (· != '<')))).length := Text.length_trim_le _

theorem simpleNameChars_eq_self_iff {text : List Char} :
    simpleNameChars text = text ↔ IsSimpleName text := by
  have beforeAngle (noAngle : '<' ∉ text) : text.takeWhile (· != '<') = text :=
    List.takeWhile_eq_self_iff.mpr (forall_bne_of_notMem noAngle)
  constructor
  · intro same
    have noAngle := same ▸ angle_notMem_simpleNameChars text
    have trimmed := same ▸ isTrimmed_simpleNameChars text
    refine ⟨noAngle, same ▸ dot_notMem_simpleNameChars text, trimmed, ?_⟩
    intro ends
    have shorter := length_simpleNameChars_le text
    rw [same, beforeAngle noAngle, trimmed.trim_eq] at shorter
    exact Nat.not_lt_of_le shorter (length_dropBrackets_lt ends)
  · intro simple
    rw [simpleNameChars, beforeAngle simple.noAngle, simple.trimmed.trim_eq,
      dropBrackets_of_not_suffix simple.bare, simple.trimmed.trim_eq,
      lastSegment_of_notMem simple.noDot, simple.trimmed.trim_eq]

/-!
# White space between array suffixes
-/

/-- Whether a written type has white space between two array suffixes at its end. -/
def HasSpacedSuffixes (text : List Char) : Prop :=
  ∃ front blanks count after,
    text.takeWhile (· != '<') =
      front ++ arraySuffix ++ blanks ++ arraySuffixes (count + 1) ++ after ∧
    blanks ≠ [] ∧ (∀ c ∈ blanks, Text.isBlank c = true) ∧ ∀ c ∈ after, Text.isBlank c = true

theorem exists_concat_of_blanks {blanks : List Char} (nonempty : blanks ≠ [])
    (areBlank : ∀ c ∈ blanks, Text.isBlank c = true) :
    ∃ front c, blanks = front ++ [c] ∧ Text.isBlank c = true := by
  rcases List.eq_nil_or_concat blanks with isNil | ⟨front, c, rfl⟩
  · exact absurd isNil nonempty
  · rw [List.concat_eq_append] at areBlank ⊢
    exact ⟨front, c, rfl, areBlank c (List.mem_append_right front (List.mem_singleton_self c))⟩

theorem HasSpacedSuffixes.of_suffix {text : List Char}
    (ends : arraySuffix <:+ Text.trim (dropBrackets (Text.trim (text.takeWhile (· != '<'))))) :
    HasSpacedSuffixes text := by
  generalize isHead : text.takeWhile (· != '<') = head at ends
  rcases ends with ⟨front, isBare⟩
  rcases Text.exists_append_trim_append (dropBrackets (Text.trim head)) with
    ⟨before, blanks, _, areBlank, isDropped⟩
  rcases exists_dropBrackets_append (Text.trim head) with ⟨count, isBase, bare⟩
  rcases Text.exists_append_trim_append head with ⟨lead, after, _, blankAfter, isWhole⟩
  rw [← isBare] at isDropped
  have nonempty : blanks ≠ [] := by
    intro isNil
    apply bare
    rw [← isDropped, isNil, List.append_nil]
    exact List.suffix_append_of_suffix (List.suffix_append _ _)
  cases count with
  | zero =>
      -- the blanks would stand at the end of a trimmed text
      rcases exists_concat_of_blanks nonempty areBlank with ⟨more, c, rfl, isBlank⟩
      have isLast : (Text.trim head).getLast? = some c := by
        rw [← isBase, ← isDropped]
        simp [arraySuffixes]
      rw [(Text.isTrimmed_trim head).stop c isLast] at isBlank
      cases isBlank
  | succ count =>
      refine ⟨lead ++ before ++ front, blanks, count, after, ?_, nonempty, areBlank, blankAfter⟩
      rw [isHead, ← isWhole, ← isBase, ← isDropped]
      simp only [List.append_assoc]

theorem HasSpacedSuffixes.suffix {text : List Char} (spaced : HasSpacedSuffixes text) :
    arraySuffix <:+ Text.trim (dropBrackets (Text.trim (text.takeWhile (· != '<')))) := by
  rcases spaced with ⟨front, blanks, count, after, isHead, nonempty, areBlank, blankAfter⟩
  have regrouped (start : List Char) : start ++ arraySuffix ++ blanks ++ arraySuffixes (count + 1) =
      start ++ '[' :: ((']' :: blanks ++ arraySuffixes count ++ ['[']) ++ [']']) := by
    rw [arraySuffixes_succ]
    simp [arraySuffix]
  have isBase : Text.trim (text.takeWhile (· != '<')) =
      Text.trimStart front ++ arraySuffix ++ blanks ++ arraySuffixes (count + 1) := by
    rw [isHead, Text.trim_append_blanks blankAfter, regrouped, Text.trim_between rfl rfl,
      ← regrouped]
  -- the blanks keep the suffix in front of them
  have stops (start : List Char) : dropBrackets (start ++ blanks) = start ++ blanks := by
    rcases exists_concat_of_blanks nonempty areBlank with ⟨more, c, rfl, isBlank⟩
    rw [← List.append_assoc]
    apply dropBrackets_concat
    intro isBracket
    rw [isBracket] at isBlank
    cases isBlank
  rw [isBase, dropBrackets_append_arraySuffixes, stops, Text.trim_append_blanks areBlank,
    trim_append_arraySuffix]
  exact List.suffix_append _ _

theorem arraySuffix_suffix_simpleNameChars_iff {text : List Char} :
    arraySuffix <:+ simpleNameChars text ↔ HasSpacedSuffixes text := by
  rw [simpleNameChars, arraySuffix_suffix_trim_lastSegment_iff (Text.isTrimmed_trim _).stop]
  exact ⟨HasSpacedSuffixes.of_suffix, HasSpacedSuffixes.suffix⟩

theorem isSimpleName_simpleNameChars_iff {text : List Char} :
    IsSimpleName (simpleNameChars text) ↔ ¬ HasSpacedSuffixes text := by
  rw [← arraySuffix_suffix_simpleNameChars_iff]
  constructor
  · intro simple
    exact simple.bare
  · intro bare
    exact ⟨angle_notMem_simpleNameChars text, dot_notMem_simpleNameChars text,
      isTrimmed_simpleNameChars text, bare⟩

/-- What is read off a written type has no left angle bracket, no dot and no white space at either
end. It has no array suffix, and is its own simple name, exactly if there is no white space between
two array suffixes at the end of the written type. -/
theorem simpleTypeName_canonical_iff (text : String) :
    let name := simpleTypeName text
    '<' ∉ name.toList ∧ '.' ∉ name.toList ∧
      (∀ c ∈ name.toList.head?, Text.isBlank c = false) ∧
      (∀ c ∈ name.toList.getLast?, Text.isBlank c = false) ∧
      (¬ arraySuffix <:+ name.toList ↔ ¬ HasSpacedSuffixes text.toList) ∧
      (simpleTypeName name = name ↔ ¬ HasSpacedSuffixes text.toList) := by
  intro name
  have isName : name.toList = simpleNameChars text.toList := String.toList_ofList
  have trimmed := isTrimmed_simpleNameChars text.toList
  have sameAgain : simpleTypeName name = name ↔ simpleNameChars name.toList = name.toList := by
    rw [← String.toList_inj, simpleTypeName, String.toList_ofList]
  rw [sameAgain, isName, simpleNameChars_eq_self_iff, isSimpleName_simpleNameChars_iff,
    arraySuffix_suffix_simpleNameChars_iff]
  exact ⟨angle_notMem_simpleNameChars _, dot_notMem_simpleNameChars _, trimmed.start,
    trimmed.stop, Iff.rfl, Iff.rfl⟩

/-- The simple name of an array of arrays keeps a suffix if there is a space between the two. -/
theorem simpleTypeName_keeps_spaced_suffix :
    let name := simpleTypeName "Foo[] []"
    arraySuffix <:+ name.toList ∧ simpleTypeName name ≠ name := by
  decide

end Java
end CommandWiring
