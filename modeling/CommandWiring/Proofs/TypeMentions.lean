import CommandWiring.Java.Reader
import CommandWiring.Proofs.MentionedTypes
import CommandWiring.Proofs.TypeWords

/-!
# Types that are read right

The mentioned types are read off the text, a scoped type and a named receiver off the text of the
whole name. They are the names of the words that name types if each such name is written plainly.
-/

namespace CommandWiring
namespace Java

/-!
# Names of words
-/

section

variable {document : Document} {tree : Tree} {construct : Construct}
  (lies : tree.LiesIn document.text) (isNode : tree.construct? = some construct)

include lies isNode

theorem simpleTypeName_of_endsInWord {wanted : Construct} (notUnit : construct.isUnit = false)
    (isWord : wanted.isWord = true) (plain : endsInWord document.textOf wanted tree = true) :
    ∃ front dot word, tree.children = front ++ [.token dot, word] ∧
      word.construct? = some wanted ∧ word.IsFilled ∧
      simpleTypeName (document.textOf tree.span) = document.textOf word.span := by
  unfold endsInWord at plain
  split at plain
  · next word dot others isReversed =>
      simp only [Bool.and_eq_true, beq_iff_eq, Bool.not_eq_true'] at plain
      rcases plain with ⟨⟨⟨isWanted, isWritten⟩, isDot⟩, noAngle⟩
      have isChildren : tree.children = others.reverse ++ [.token dot, word] := by
        rw [← List.reverse_reverse tree.children, isReversed]
        simp
      have dotIsText : document.textOf dot ≠ "" := by
        rw [isDot]
        decide
      have isName := isName_of_isWrittenName isWritten
      have wordFilled : word.IsFilled := by
        have nonempty : document.textOf word.span ≠ "" := by
          intro isEmpty
          rw [isEmpty] at isName
          exact isName.nonempty rfl
        exact Document.lt_of_textOf_ne_empty nonempty
      rcases exists_covers_of_children lies isNode notUnit isChildren
          (Document.lt_of_textOf_ne_empty dotIsText) isWanted isWord wordFilled with
        ⟨text, point, blanks, name, whole, pointCovers, wordCovers, areBlank⟩
      have isPoint : point = ['.'] := by
        rw [Document.textOf_of_covers pointCovers] at isDot
        have isText := congrArg String.toList isDot
        rwa [String.toList_ofList] at isText
      subst isPoint
      refine ⟨others.reverse, dot, word, isChildren, isWanted, wordFilled, ?_⟩
      rw [Document.textOf_of_covers wordCovers] at isName ⊢
      rw [Document.textOf_of_covers whole, String.toList_ofList, List.singleton_append] at noAngle
      rw [String.toList_ofList] at isName
      have notMem : '<' ∉ text ++ '.' :: (blanks ++ name) := by
        intro member
        rw [List.contains_iff_mem.mpr member] at noAngle
        cases noAngle
      rw [Document.textOf_of_covers whole, simpleTypeName, String.toList_ofList]
      exact congrArg String.ofList (isName.simpleNameChars_qualified areBlank notMem)
  · cases plain

end

/-!
# Names that are read
-/

theorem typeNames_node (textOf : Span -> String) (slot : Slot) (construct : Construct) (span : Span)
    (parts : List Tree) :
    typeNames textOf (.node slot construct span parts) =
      match construct with
      | .typeIdentifier => textOf span :: typeNamesIn textOf parts
      | .scopedTypeIdentifier => [simpleTypeName (textOf span)]
      | .methodReference => receiverName textOf parts ++ typeNamesIn textOf parts
      | _ => typeNamesIn textOf parts := by
  cases construct <;> rfl

theorem isQualifiedName_node (slot : Slot) (construct : Construct) (span : Span)
    (parts : List Tree) :
    isQualifiedName (.node slot construct span parts) =
      match construct with
      | .identifier => true
      | .fieldAccess => areQualifiedNames parts
      | .scopedIdentifier => areQualifiedNames parts
      | _ => false := by
  cases construct <;> rfl

theorem isPlainlyWritten_node (textOf : Span -> String) (slot : Slot) (construct : Construct)
    (span : Span) (parts : List Tree) :
    isPlainlyWritten textOf (.node slot construct span parts) =
      match construct with
      | .scopedTypeIdentifier => (partWords true parts).isEmpty &&
          endsInWord textOf .typeIdentifier (.node slot .scopedTypeIdentifier span parts)
      | .methodReference =>
          (parts.find? Tree.isNode).all (isPlainReceiver textOf) &&
            (partWords false (parts.takeWhile fun part => !part.isNode)).isEmpty &&
            arePlainlyWritten textOf parts
      | _ => arePlainlyWritten textOf parts := by
  cases construct <;> rfl

section

variable {text : String} {textOf : Span -> String}

mutual

theorem typeNames_of_isQualifiedName : ∀ (tree : Tree), tree.LiesIn text ->
    isQualifiedName tree = true -> typeNames textOf tree = []
  | .token _, _, _ => rfl
  | .extra _ _, _, isName => by cases isName
  | .node slot construct span parts, lies, isName => by
      have below : ∀ part ∈ parts, part.LiesIn text := fun part member => lies.child member
      rw [isQualifiedName_node] at isName
      rw [typeNames_node]
      split at isName
      · rw [show parts = [.token span] from lies.children_of_word rfl rfl]
        rfl
      · exact typeNamesIn_of_areQualifiedNames parts below isName
      · exact typeNamesIn_of_areQualifiedNames parts below isName
      · cases isName

theorem typeNamesIn_of_areQualifiedNames : ∀ (trees : List Tree),
    (∀ tree ∈ trees, tree.LiesIn text) -> areQualifiedNames trees = true ->
    typeNamesIn textOf trees = []
  | [], _, _ => rfl
  | first :: rest, lie, areNames => by
      rw [areQualifiedNames, Bool.and_eq_true, Bool.or_eq_true, Bool.not_eq_true'] at areNames
      have noneFirst : typeNames textOf first = [] := by
        rcases areNames.1 with notContent | isName
        · exact typeNames_of_not_isContent notContent
        · exact typeNames_of_isQualifiedName first (lie first List.mem_cons_self) isName
      rw [typeNamesIn, noneFirst, typeNamesIn_of_areQualifiedNames rest
        (fun tree member => lie tree (List.mem_cons_of_mem first member)) areNames.2]
      rfl

end

theorem isNameLike_of_isQualifiedName {tree : Tree} (isName : isQualifiedName tree = true) :
    isNameLike tree = true := by
  cases tree with
  | token span => cases isName
  | extra span parts => cases isName
  | node slot construct span parts =>
      rw [isQualifiedName_node] at isName
      split at isName
      · rfl
      · rfl
      · rfl
      · cases isName

/-- The names that are not empty are the texts of `words`, one by one. -/
def Reads (textOf : Span -> String) (names : List String) (words : List Tree) : Prop :=
  names.filter (fun name => name != "") = words.map fun word => textOf word.span

theorem Reads.nil : Reads textOf [] [] :=
  rfl

theorem Reads.single {name : String} {word : Tree} (isText : name = textOf word.span)
    (nonempty : name ≠ "") : Reads textOf [name] [word] := by
  simpa [Reads, nonempty] using isText

theorem Reads.append {names moreNames : List String} {words moreWords : List Tree}
    (first : Reads textOf names words) (second : Reads textOf moreNames moreWords) :
    Reads textOf (names ++ moreNames) (words ++ moreWords) := by
  rw [Reads, List.filter_append, List.map_append, first, second]

theorem partWords_append (qualifies : Bool) (first second : List Tree) :
    partWords qualifies (first ++ second) =
      partWords qualifies first ++ partWords qualifies second := by
  induction first with
  | nil => rfl
  | cons tree rest ih => rw [List.cons_append, partWords, partWords, ih, List.append_assoc]

theorem segmentWords_of_last (qualifies : Bool) (front : List Tree) (dot : Span) {word : Tree}
    (isNode : word.isNode = true) :
    segmentWords qualifies (front ++ [.token dot, word]) =
      partWords true front ++ typeWords qualifies word := by
  induction front with
  | nil => simp [segmentWords, partWords, typeWords]
  | cons first rest ih =>
      have followed : (rest ++ [.token dot, word]).any Tree.isNode = true := by
        rw [List.any_append, Bool.or_eq_true]
        exact Or.inr (by simp [isNode])
      rw [List.cons_append, segmentWords, followed, Bool.or_true, ih, partWords, List.append_assoc]

end

section

variable {document : Document}

theorem simpleTypeName_of_isWrittenName {text : String} (isWritten : isWrittenName text = true) :
    simpleTypeName text = text := by
  rw [simpleTypeName, (isName_of_isWrittenName isWritten).simpleNameChars, String.ofList_toList]

theorem lastWord_of_last {tree word : Tree} {front : List Tree}
    (isChildren : tree.children = front ++ [word]) (isNode : word.isNode = true) :
    lastWord tree = word := by
  rw [lastWord, Tree.nodes, isChildren, List.filter_append,
    List.filter_cons_of_pos isNode, List.filter_nil, List.getLast?_concat, Option.getD_some]

theorem reads_receiver {receiver : Tree} (lies : receiver.LiesIn document.text)
    (plain : isPlainReceiver document.textOf receiver = true)
    (nameLike : isNameLike receiver = true) :
    isQualifiedName receiver = true ∧
      Reads document.textOf [simpleTypeName (document.textOf receiver.span)]
        [lastWord receiver] := by
  rw [isPlainReceiver, nameLike, Bool.not_true, Bool.false_or, Bool.and_eq_true] at plain
  rcases plain with ⟨isName, written⟩
  refine ⟨isName, ?_⟩
  split at written
  · next isIdentifier =>
      have isItself : lastWord receiver = receiver := by
        rw [lastWord, Tree.nodes, lies.children_of_word isIdentifier rfl]
        rfl
      rw [simpleTypeName_of_isWrittenName written, isItself]
      refine .single rfl fun isEmpty => (isName_of_isWrittenName written).nonempty ?_
      rw [isEmpty]
      rfl
  · next notIdentifier =>
      have isCompound : receiver.construct? = some .fieldAccess ∨
          receiver.construct? = some .scopedIdentifier := by
        rw [isNameLike, Bool.or_eq_true, Bool.or_eq_true, beq_iff_eq, beq_iff_eq, beq_iff_eq]
          at nameLike
        rcases nameLike with (isIdentifier | isAccess) | isScoped
        · exact absurd isIdentifier notIdentifier
        · exact Or.inl isAccess
        · exact Or.inr isScoped
      obtain ⟨construct, isNode, notUnit⟩ : ∃ construct,
          receiver.construct? = some construct ∧ construct.isUnit = false := by
        rcases isCompound with isAccess | isScoped
        · exact ⟨_, isAccess, rfl⟩
        · exact ⟨_, isScoped, rfl⟩
      rcases simpleTypeName_of_endsInWord lies isNode notUnit rfl written with
        ⟨front, dot, word, isChildren, isWord, wordFilled, isText⟩
      rw [List.append_cons] at isChildren
      have wordLies : word.LiesIn document.text := by
        apply lies.child
        rw [isChildren]
        exact List.mem_append_right _ (List.mem_singleton_self word)
      rw [lastWord_of_last isChildren (Tree.isNode_of_construct isWord), isText]
      exact .single rfl (textOf_ne_empty_of_word wordLies isWord rfl wordFilled)

theorem reads_scopedType {slot : Slot} {span : Span} {parts : List Tree}
    (lies : (Tree.node slot .scopedTypeIdentifier span parts).LiesIn document.text)
    (noOthers : partWords true parts = [])
    (plain : endsInWord document.textOf .typeIdentifier
      (.node slot .scopedTypeIdentifier span parts) = true) :
    Reads document.textOf [simpleTypeName (document.textOf span)] (segmentWords false parts) := by
  rcases simpleTypeName_of_endsInWord lies rfl rfl rfl plain with
    ⟨front, dot, word, isChildren, isWord, wordFilled, isText⟩
  change parts = front ++ [.token dot, word] at isChildren
  have wordLies : word.LiesIn document.text := by
    apply lies.child
    change word ∈ parts
    rw [isChildren]
    simp
  have isItself : typeWords false word = [word] := by
    cases word with
    | token span => cases isWord
    | extra span parts => cases isWord
    | node slot construct span children =>
        rcases Option.some.inj isWord with rfl
        have isThere : ¬ span.stop ≤ span.start := Nat.not_le.mpr wordFilled
        rw [typeWords, Bool.false_or, if_neg (by simpa using isThere)]
  rw [isChildren, partWords_append, List.append_eq_nil_iff] at noOthers
  rw [isChildren, segmentWords_of_last false front dot (Tree.isNode_of_construct isWord),
    noOthers.1, isItself]
  exact .single isText (isText ▸ textOf_ne_empty_of_word wordLies isWord rfl wordFilled)

mutual

theorem reads_typeWords : ∀ (tree : Tree), tree.LiesIn document.text ->
    isPlainlyWritten document.textOf tree = true ->
    Reads document.textOf (typeNames document.textOf tree) (typeWords false tree)
  | .token _, _, _ => .nil
  | .extra _ parts, lies, plain =>
      reads_partWords parts (fun _ member => lies.atPart member) plain
  | .node slot construct span parts, lies, plain => by
      have below : ∀ part ∈ parts, part.LiesIn document.text :=
        fun part member => lies.child member
      rw [isPlainlyWritten_node] at plain
      rw [typeNames_node, typeWords_node]
      split at plain
      · rw [Bool.and_eq_true, List.isEmpty_iff] at plain
        exact reads_scopedType lies plain.1 plain.2
      · rw [Bool.and_eq_true, Bool.and_eq_true, List.isEmpty_iff] at plain
        exact reads_referenceWords parts below plain.1.1 plain.1.2 plain.2
      · next notScoped notReference =>
          cases construct with
          | typeIdentifier =>
              have single : parts = [.token span] := lies.children_of_word rfl rfl
              subst single
              dsimp only
              rw [Bool.false_or]
              split
              · next isMissing =>
                  have notThere : ¬ span.start < span.stop :=
                    Nat.not_lt.mpr (of_decide_eq_true isMissing)
                  rw [Document.textOf_of_not_lt notThere]
                  rfl
              · next isThere =>
                  have filled : span.start < span.stop := by
                    rw [decide_eq_true_iff, Nat.not_le] at isThere
                    exact isThere
                  exact .single rfl (textOf_ne_empty_of_word lies rfl rfl filled)
          | genericType => exact reads_partWords parts below plain
          | scopedTypeIdentifier => exact absurd rfl notScoped
          | methodReference => exact absurd rfl notReference
          | _ => exact reads_partWords parts below plain

theorem reads_partWords : ∀ (trees : List Tree), (∀ tree ∈ trees, tree.LiesIn document.text) ->
    arePlainlyWritten document.textOf trees = true ->
    Reads document.textOf (typeNamesIn document.textOf trees) (partWords false trees)
  | [], _, _ => .nil
  | first :: rest, lie, plain => by
      rw [arePlainlyWritten, Bool.and_eq_true] at plain
      exact (reads_typeWords first (lie first List.mem_cons_self) plain.1).append
        (reads_partWords rest (fun tree member => lie tree (List.mem_cons_of_mem first member))
          plain.2)

theorem reads_referenceWords : ∀ (trees : List Tree),
    (∀ tree ∈ trees, tree.LiesIn document.text) ->
    (trees.find? Tree.isNode).all (isPlainReceiver document.textOf) = true ->
    partWords false (trees.takeWhile fun tree => !tree.isNode) = [] ->
    arePlainlyWritten document.textOf trees = true ->
    Reads document.textOf (receiverName document.textOf trees ++ typeNamesIn document.textOf trees)
      (referenceWords trees)
  | [], _, _, _, _ => .nil
  | first :: rest, lie, receiver, noneInFront, plain => by
      have restLie : ∀ tree ∈ rest, tree.LiesIn document.text :=
        fun tree member => lie tree (List.mem_cons_of_mem first member)
      have firstLies := lie first List.mem_cons_self
      rw [arePlainlyWritten, Bool.and_eq_true] at plain
      rw [receiverName, referenceWords, typeNamesIn]
      cases isNode : first.isNode with
      | true =>
          rw [List.find?_cons_of_pos isNode, Option.all_some] at receiver
          have behind := reads_partWords rest restLie plain.2
          rw [List.find?_cons_of_pos isNode, if_pos rfl]
          dsimp only
          cases nameLike : isNameLike first with
          | true =>
              rcases reads_receiver firstLies receiver nameLike with ⟨isName, reads⟩
              rw [if_pos rfl, if_pos isName,
                typeNames_of_isQualifiedName first firstLies isName, List.nil_append]
              exact reads.append behind
          | false =>
              have notName : ¬ isQualifiedName first = true := by
                intro isName
                rw [isNameLike_of_isQualifiedName isName] at nameLike
                cases nameLike
              rw [if_neg Bool.false_ne_true, if_neg notName, List.nil_append]
              exact (reads_typeWords first firstLies plain.1).append behind
      | false =>
          have notNode : ¬ first.isNode = true := Bool.eq_false_iff.mp isNode
          rw [List.takeWhile_cons_of_pos (by simp [isNode]), partWords,
            List.append_eq_nil_iff] at noneInFront
          have isFirst := reads_typeWords first firstLies plain.1
          rw [noneInFront.1, Reads, List.map_nil] at isFirst
          rw [List.find?_cons_of_neg notNode] at receiver ⊢
          rw [if_neg Bool.false_ne_true, noneInFront.1, List.nil_append, Reads,
            List.filter_append, List.filter_append, isFirst, List.nil_append, ← List.filter_append]
          exact reads_referenceWords rest restLie receiver noneInFront.2 plain.2

end

end

/-!
# Each name once
-/

section

variable {α : Type} [DecidableEq α]

theorem idxOf_lt_of_filter {accepts : α -> Bool} {all : List α} {first second : α}
    (isFirst : accepts first = true) (isSecond : accepts second = true)
    (less : (all.filter accepts).idxOf first < (all.filter accepts).idxOf second) :
    all.idxOf first < all.idxOf second := by
  induction all with
  | nil => exact absurd less (Nat.lt_irrefl 0)
  | cons head rest ih =>
      by_cases accepted : accepts head = true
      · rw [List.filter_cons_of_pos accepted] at less
        by_cases secondIsHead : head = second
        · rw [List.idxOf_cons_eq _ secondIsHead] at less
          exact absurd less (Nat.not_lt_zero _)
        · by_cases firstIsHead : head = first
          · rw [List.idxOf_cons_eq _ firstIsHead, List.idxOf_cons_ne _ secondIsHead]
            exact Nat.succ_pos _
          · rw [List.idxOf_cons_ne _ firstIsHead, List.idxOf_cons_ne _ secondIsHead] at less ⊢
            exact Nat.succ_lt_succ (ih (Nat.lt_of_succ_lt_succ less))
      · have notFirst : head ≠ first := fun same => accepted (same ▸ isFirst)
        have notSecond : head ≠ second := fun same => accepted (same ▸ isSecond)
        rw [List.filter_cons_of_neg accepted] at less
        rw [List.idxOf_cons_ne _ notFirst, List.idxOf_cons_ne _ notSecond]
        exact Nat.succ_lt_succ (ih less)

/-- Without its repetitions a list is in the order of first occurrences. -/
theorem pairwise_idxOf_eraseDups (all : List α) :
    all.eraseDups.Pairwise fun first second => all.idxOf first < all.idxOf second := by
  match all with
  | [] => exact .nil
  | head :: rest =>
      have ofOthers := pairwise_idxOf_eraseDups (rest.filter fun other => !other == head)
      have isOther {other : α}
          (member : other ∈ (rest.filter fun other => !other == head).eraseDups) :
          (!other == head) = true :=
        (List.mem_filter.mp (List.mem_eraseDups.mp member)).2
      have notHead {other : α} (accepted : (!other == head) = true) : head ≠ other := by
        rintro rfl
        simp at accepted
      rw [List.eraseDups_cons, List.pairwise_cons]
      constructor
      · intro other member
        rw [List.idxOf_cons_self, List.idxOf_cons_ne _ (notHead (isOther member))]
        exact Nat.succ_pos _
      · refine ofOthers.imp_of_mem ?_
        intro first second isFirst isSecond less
        rw [List.idxOf_cons_ne _ (notHead (isOther isFirst)),
          List.idxOf_cons_ne _ (notHead (isOther isSecond))]
        exact Nat.succ_lt_succ (idxOf_lt_of_filter (isOther isFirst) (isOther isSecond) less)
termination_by all.length
decreasing_by exact Nat.lt_succ_of_le (List.length_filter_le _ _)

end

namespace Document

open SyntaxNode

variable {document : Document} {node : document.Node}

theorem mentions_eq_eraseDups
    (plain : isPlainlyWritten document.textOf node.place.focus = true) :
    mentions node =
      ((typeWords false node.place.focus).map fun word => document.textOf word.span).eraseDups := by
  exact congrArg List.eraseDups (reads_typeWords node.place.focus (liesIn_focus node.place) plain)

/-- A plainly written node mentions exactly the types that words in it name, each once and in the
order of the first words for them in the text. -/
theorem mentions_name_types
    (plain : isPlainlyWritten document.textOf node.place.focus = true) :
    let words := typeWords false node.place.focus
    let names := words.map fun word => document.textOf word.span
    (∀ name, name ∈ mentions node ↔ name ∈ names) ∧ (mentions node).Nodup ∧
      (mentions node).Pairwise (fun first second => names.idxOf first < names.idxOf second) ∧
      words.Pairwise fun first second => first.span.stop ≤ second.span.start := by
  intro words names
  have ascending := pairwise_idxOf_eraseDups names
  have ordered := (liesIn_focus node.place).ordered
  rw [mentions_eq_eraseDups plain]
  refine ⟨fun name => List.mem_eraseDups, ?_, ascending, ?_⟩
  · refine ascending.imp ?_
    intro first second less same
    exact absurd less (same ▸ Nat.lt_irrefl _)
  · exact List.pairwise_map.mp (between_typeWords node.place.focus false ordered).pairwise

theorem mentions_name_types_spaced_names :
    let document := parse "class A{p . Load f;void g(){h(q. Save::new, x -> new T<U>());}}"
    let words := typeWords false document.root
    let names := words.map fun word => document.textOf word.span
    isPlainlyWritten document.textOf document.root = true ∧
      (∀ name, name ∈ mentions document.rootNode ↔ name ∈ names) ∧
      (mentions document.rootNode).Nodup ∧
      (mentions document.rootNode).Pairwise
        (fun first second => names.idxOf first < names.idxOf second) ∧
      words.Pairwise fun first second => first.span.stop ≤ second.span.start := by
  intro document words names
  have plain : isPlainlyWritten document.textOf document.root = true := by decide +kernel
  have rootIsPlain : isPlainlyWritten document.textOf document.rootNode.place.focus = true := plain
  exact ⟨plain, mentions_name_types rootIsPlain⟩

/-- The type argument of a qualifying segment is not mentioned, and the qualifier is. -/
theorem mentions_at_qualified_by_generic_type :
    let document := parse "class A{Outer<X>.Inner f;}"
    let names := (typeWords false document.root).map fun word => document.textOf word.span
    names = ["X", "Inner"] ∧ mentions document.rootNode = ["Outer"] := by
  decide +kernel

end Document

end Java
end CommandWiring
