import CommandWiring.Java.Reader
import CommandWiring.Proofs.CodeContexts
import CommandWiring.Proofs.Outcomes
import CommandWiring.Proofs.Reports
import CommandWiring.Proofs.WrittenNames

/-!
# Commands and their source

What is reported of a command agrees with the text of the file and with the node of the command: its
text is the text between its offsets, its lines and columns are those of the offsets, and its
context marks the rows that it stands on.
-/

namespace CommandWiring

open SyntaxNode

/-!
# Kinds of commands
-/

section

variable {N : Type} [SyntaxNode N] {types : TypeSet} {outcome : Outcome N}

/-- The node of a command is of the kind that the outcome says. -/
def Outcome.IsKinded : Outcome N -> Prop
  | constructorCall node => kind node = .constructorCall
  | methodReference node => kind node = .methodReference
  | block node => kind node = .block
  | missed _ => True

theorem Outcome.IsKinded.kind_mem {node : N} (isKinded : outcome.IsKinded)
    (isNode : outcome.node? = some node) :
    kind node ∈ [NodeKind.constructorCall, .methodReference, .block] := by
  cases outcome with
  | missed reason => cases isNode
  | constructorCall found =>
      rcases Option.some.inj isNode with rfl
      rw [show kind found = .constructorCall from isKinded]
      decide
  | methodReference found =>
      rcases Option.some.inj isNode with rfl
      rw [show kind found = .methodReference from isKinded]
      decide
  | block found =>
      rcases Option.some.inj isNode with rfl
      rw [show kind found = .block from isKinded]
      decide

namespace Search

theorem LambdaYields.isKinded {lambda : N} (yields : LambdaYields types lambda outcome) :
    outcome.IsKinded := by
  cases yields with
  | command isFirst => exact isFirst.1.1
  | noCommand _ => trivial

theorem VariableYields.isKinded {reference : N} (yields : VariableYields types reference outcome) :
    outcome.IsKinded := by
  cases yields with
  | outside _ => trivial
  | unresolved _ _ => trivial
  | resolved _ _ yields => exact yields.isKinded

theorem SupplierYields.isKinded {supplier : N} (yields : SupplierYields types supplier outcome) :
    outcome.IsKinded := by
  cases yields with
  | ofLambda _ yields => exact yields.isKinded
  | ofVariable _ yields => exact yields.isKinded
  | ofReference isReference _ => exact isReference
  | noCommand _ _ => trivial
  | unsupported _ _ _ => trivial

theorem AnonymousYields.isKinded {invocation : N} (yields : AnonymousYields invocation outcome) :
    outcome.IsKinded := by
  cases yields with
  | block _ isFirst => exact isFirst.1
  | noLambda _ => trivial
  | noBlock _ _ => trivial

theorem Yields.isKinded {invocation : N} (yields : Yields types invocation outcome) :
    outcome.IsKinded := by
  cases yields with
  | tooDeep _ => trivial
  | anonymous _ _ yields => exact yields.isKinded
  | noSupplier _ _ _ => trivial
  | supplied _ _ _ yields => exact yields.isKinded

theorem isKinded_inClass [DecidableEq N] (types : TypeSet) (owner : N) :
    (inClass types owner).value.IsKinded := by
  rw [inClass]
  split
  · next lambda _ => exact (value_inLambda_eq_iff.mp rfl).isKinded
  · trivial
  · trivial

end Search

end

theorem Origin.isKinded_outcome {document : Java.Document} (types : TypeSet)
    (origin : Origin document) : (origin.outcome types).IsKinded := by
  cases origin with
  | atSite site => exact ((Search.value_inInvocation_eq_iff _ _ _).mp rfl).isKinded
  | inScope owner => exact Search.isKinded_inClass types owner

/-!
# Complete commands
-/

namespace Java

def Construct.isCommand : Construct -> Bool
  | objectCreationExpression => true
  | methodReference => true
  | block => true
  | _ => false

/-- What a text without syntax errors grants a node that can be a command: it is not empty, and its
last token does not end in a line feed. -/
def Document.IsComplete (document : Document) : Prop :=
  document.root.Everywhere fun part => part.construct?.any Construct.isCommand = true ->
    part.IsFilled ∧ (document.textOf part.span).toList.getLast? ≠ some '\n'

instance (document : Document) : Decidable document.IsComplete :=
  inferInstanceAs (Decidable (document.root.Everywhere fun part =>
    part.construct?.any Construct.isCommand = true ->
      part.span.start < part.span.stop ∧
        (document.textOf part.span).toList.getLast? ≠ some '\n'))

theorem Place.isCommand_of_kind {root : Tree} {place : Place root}
    (isKinded : place.kind ∈ [NodeKind.constructorCall, .methodReference, .block]) :
    place.focus.construct?.any Construct.isCommand = true := by
  unfold kind at isKinded
  split at isKinded
  all_goals first
    | (simp only [*]; rfl)
    | (split at isKinded <;> (try split at isKinded) <;> simp at isKinded)
    | simp at isKinded

theorem Document.IsComplete.of_kind {document : Document} (complete : document.IsComplete)
    {node : document.Node}
    (isKinded : kind node ∈ [NodeKind.constructorCall, .methodReference, .block]) :
    node.span.start < node.span.stop ∧
      (document.textOf node.span).toList.getLast? ≠ some '\n' := by
  have atFocus := node.place.holds_focus complete fun _ everywhere _ member =>
    everywhere.atPart (Tree.mem_parts_of_mem_children member)
  exact atFocus.here (Place.isCommand_of_kind isKinded)

end Java

/-!
# Words
-/

/-- `word` is `n` counted in words of thirty-two bits, and it is `n` itself if the text is shorter
than that. -/
def Tells (text : String) (word : UInt32) (n : Nat) : Prop :=
  word = UInt32.ofNat n ∧ (text.utf8ByteSize < UInt32.size -> word.toNat = n)

theorem tells_ofNat {text : String} {n : Nat} (inside : n ≤ text.utf8ByteSize) :
    Tells text (UInt32.ofNat n) n :=
  ⟨rfl, fun small => UInt32.toNat_ofNat_of_lt' (Nat.lt_of_le_of_lt inside small)⟩

/-!
# Agreement
-/

/-- What is reported of `command` agrees with `text`, in which the command is `part`, between
`before` and `after`. -/
structure FoundCommand.AgreesWith (text : String)
    (command : FoundCommand) (before part after : List Char) : Prop where
  whole : text.toList = before ++ part ++ after
  nonempty : part ≠ []
  isText : command.text = String.ofList part
  startByte : Tells text command.startByte (Java.utf8Length before)
  endByte : Tells text command.endByte (Java.utf8Length (before ++ part))
  startLine : Tells text command.startLine (before.count '\n' + 1)
  endLine : Tells text command.endLine ((before ++ part).count '\n' + 1)
  startColumn : ∃ line, Text.IsLastLine line before ∧
    Tells text command.startColumn (Java.utf8Length line)
  endColumn : ∃ line, Text.IsLastLine line (before ++ part) ∧
    Tells text command.endColumn (Java.utf8Length line)
  /-- The rows that the command stands on are marked. -/
  marks : ∃ shown, command.context? = some shown ∧
    let marked := (Text.splitAt '\n' shown.toList).countP CodeContext.isMarked
    marked = part.count '\n' + 1 ∧
      (text.utf8ByteSize < UInt32.size ->
        marked = command.endLine.toNat - command.startLine.toNat + 1)

theorem Text.sliceLossy_eq_of_slice? {text part : String} {start stop : Nat}
    (inside : start < text.utf8ByteSize) (isPart : slice? text start stop = some part) :
    sliceLossy text start stop = part := by
  rw [slice?] at isPart
  split at isPart
  · next bounds =>
      rw [sliceLossy, if_pos ⟨inside, bounds.2⟩, decodeLossy, isPart]
  · cases isPart

theorem utf8ByteSize_of_append {text : String} {front back : List Char}
    (whole : text.toList = front ++ back) :
    text.utf8ByteSize = Java.utf8Length front + Java.utf8Length back := by
  rw [← Text.utf8Length_toList, whole, Java.utf8Length_append]

namespace Java

/-- `span` cuts `part` out of a text. The part is not empty and ends in no line feed. -/
structure Span.Cuts (text : String) (span : Span) (before part after : List Char) : Prop where
  whole : text.toList = before ++ part ++ after
  start : span.start = utf8Length before
  stop : span.stop = utf8Length (before ++ part)
  nonempty : part ≠ []
  last : part.getLast? ≠ some '\n'

theorem Document.exists_cuts {document : Document} (complete : document.IsComplete)
    {node : document.Node}
    (isKinded : kind node ∈ [NodeKind.constructorCall, .methodReference, .block]) :
    ∃ before part after, node.span.Cuts document.text before part after := by
  rcases complete.of_kind isKinded with ⟨filled, last⟩
  have bounded := (liesIn_focus node.place).bounded.here
  rcases bounded.stop with ⟨upToStop, after, isText, isStop⟩
  rcases exists_prefix_of_isBoundary isText bounded.start (isStop ▸ Nat.le_of_lt filled) with
    ⟨before, part, rfl, isStart⟩
  have whole : node.span.Covers document.text.toList part :=
    ⟨before, after, isText, isStart, isStop⟩
  rw [textOf_of_covers whole, String.toList_ofList] at last
  refine ⟨before, part, after, isText, isStart, isStop, ?_, last⟩
  rintro rfl
  rw [List.append_nil] at isStop
  rw [show node.span.start = _ from isStart, show node.span.stop = _ from isStop] at filled
  exact Nat.lt_irrefl _ filled

namespace Span.Cuts

variable {text : String} {span : Span} {before part after : List Char}
  (cuts : span.Cuts text before part after)

include cuts

theorem whole_start : text.toList = before ++ (part ++ after) := by
  rw [cuts.whole, List.append_assoc]

theorem covers : span.Covers text.toList part :=
  ⟨before, after, cuts.whole, cuts.start, cuts.stop⟩

theorem start_lt_utf8ByteSize : span.start < text.utf8ByteSize := by
  have size := utf8ByteSize_of_append cuts.whole
  have := utf8Length_pos cuts.nonempty
  rw [utf8Length_append] at size
  rw [cuts.start]
  omega

theorem row_lt_length_lines : (before ++ part).count '\n' < (Text.lines text).length := by
  apply Text.count_lt_length_lines cuts.whole
  · rw [cuts.whole]
    simp [cuts.nonempty]
  · rintro feedLast rfl
    rw [cuts.whole, List.append_nil, List.getLast?_append_of_ne_nil _ cuts.nonempty] at feedLast
    exact cuts.last feedLast

end Span.Cuts
end Java

namespace ReportBuilder

variable {document : Java.Document}

theorem position_of_append {front back line : List Char}
    (whole : document.text.toList = front ++ back) (isLast : Text.IsLastLine line front) :
    position document (Java.utf8Length front) =
      { row := front.count '\n', column := Java.utf8Length line } := by
  rw [position, ← Text.positionOf_utf8Length isLast back, ← whole, String.ofList_toList]

theorem textOf_of_cuts {builder : ReportBuilder} {span : Java.Span} {before part after : List Char}
    (cuts : span.Cuts builder.content before part after) :
    builder.textOf span = String.ofList part :=
  Text.sliceLossy_eq_of_slice? cuts.start_lt_utf8ByteSize cuts.covers.slice?

theorem column_le {line front : List Char} {text : String} {back : List Char}
    (whole : text.toList = front ++ back) (isLast : Text.IsLastLine line front) :
    Java.utf8Length line ≤ text.utf8ByteSize := by
  rw [utf8ByteSize_of_append whole]
  rcases isLast.2 with rfl | ⟨lead, rfl⟩
  · omega
  · rw [Java.utf8Length_append, Java.utf8Length_cons]
    omega

theorem agreesWith_unboundedCommand (builder : ReportBuilder) {node : document.Node}
    {before part after : List Char} (sameText : builder.content = document.text)
    (cuts : node.span.Cuts document.text before part after) (matchKind : MatchKind) :
    (builder.unboundedCommand node matchKind).AgreesWith document.text before part after := by
  rcases Text.exists_isLastLine before with ⟨firstLine, isFirstLine⟩
  rcases Text.exists_isLastLine (before ++ part) with ⟨lastLine, isLastLine⟩
  have start := position_of_append cuts.whole_start isFirstLine
  have stop := position_of_append cuts.whole isLastLine
  rw [← cuts.start] at start
  rw [← cuts.stop] at stop
  have startRow : (position document node.span.start).row = before.count '\n' := by rw [start]
  have stopRow : (position document node.span.stop).row = (before ++ part).count '\n' := by
    rw [stop]
  have rows : (before ++ part).count '\n' = before.count '\n' + part.count '\n' :=
    List.count_append
  have bytes := utf8ByteSize_of_append cuts.whole
  rw [Java.utf8Length_append] at bytes
  have lastRow := cuts.row_lt_length_lines
  have lines := Text.length_lines_le document.text
  have startLine : Tells document.text (builder.unboundedCommand node matchKind).startLine
      (before.count '\n' + 1) := by
    rw [unboundedCommand, found, startRow]
    exact tells_ofNat (by omega)
  have endLine : Tells document.text (builder.unboundedCommand node matchKind).endLine
      ((before ++ part).count '\n' + 1) := by
    rw [unboundedCommand, found, stopRow]
    exact tells_ofNat (by omega)
  exact {
    whole := cuts.whole
    nonempty := cuts.nonempty
    isText := textOf_of_cuts (sameText ▸ cuts)
    startByte := by
      rw [unboundedCommand, found, cuts.start]
      exact tells_ofNat (by omega)
    endByte := by
      rw [unboundedCommand, found, cuts.stop, Java.utf8Length_append]
      exact tells_ofNat (by omega)
    startLine := startLine
    endLine := endLine
    startColumn := by
      refine ⟨firstLine, isFirstLine, ?_⟩
      rw [unboundedCommand, found, start]
      exact tells_ofNat (column_le cuts.whole_start isFirstLine)
    endColumn := by
      refine ⟨lastLine, isLastLine, ?_⟩
      rw [unboundedCommand, found, stop]
      exact tells_ofNat (column_le cuts.whole isLastLine)
    marks := by
      have ordered : before.count '\n' ≤ (before ++ part).count '\n' := by omega
      rcases CodeContext.exists_context builder.context ordered lastRow with
        ⟨shown, isShown, marked⟩
      refine ⟨shown, ?_, by omega, ?_⟩
      · rw [unboundedCommand, found, startRow, stopRow, sameText]
        exact isShown
      · intro small
        rw [startLine.2 small, endLine.2 small]
        omega }

end ReportBuilder

/-!
# Commands of a file
-/

theorem Origin.exists_agreesWith {document : Java.Document} {types : TypeSet}
    {builder : ReportBuilder} {command : FoundCommand} (origin : Origin document)
    (sameText : builder.content = document.text) (complete : document.IsComplete)
    (isCommand : (origin.report types builder).command? = some command) :
    ∃ node, (origin.outcome types).node? = some node ∧ command.text = SyntaxNode.text node ∧
      ∃ before part after, command.AgreesWith document.text before part after := by
  change builder.unboundedCommand? (origin.outcome types) = some command at isCommand
  rw [ReportBuilder.unboundedCommand?] at isCommand
  split at isCommand
  · next node matchKind isNode _ =>
      rcases Option.some.inj isCommand with rfl
      have isKinded := (origin.isKinded_outcome types).kind_mem isNode
      rcases Java.Document.exists_cuts complete isKinded with ⟨before, part, after, cuts⟩
      have agrees := builder.agreesWith_unboundedCommand sameText cuts matchKind
      refine ⟨node, isNode, ?_, before, part, after, agrees⟩
      exact agrees.isText.trans (Java.Document.textOf_of_covers cuts.covers).symm
  · cases isCommand

namespace Scan

/-- How the commands that are reported of a file agree with its source. -/
structure CommandsAgree (parser : Java.Parser) (options : ScanOptions) (types : TypeSet)
    (source : SourceFile) (document : Java.Document) (builder : ReportBuilder) : Prop where
  returns : (∃ report, file parser options types source = .ok (.ok report)) ↔
    FileFits options types source document
  /-- A command is that of a site or a class of the document. -/
  agree : ∀ report, file parser options types source = .ok (.ok report) ->
    ∀ site ∈ report.value.reports, ∀ command, site.command? = some command ->
      ∃ origin ∈ origins options document,
        site = origin.report types builder ∧
          ∃ node, (origin.outcome types).node? = some node ∧
            command.text = SyntaxNode.text node ∧
            ∃ before part after, command.AgreesWith source.text before part after

/-- Every command that is reported of a text without syntax errors agrees with its source and with
its node, which a search from a site or a class found. -/
theorem commands_agree_with_source (options : ScanOptions) (types : TypeSet) {parser : Java.Parser}
    {source : SourceFile} {document : Java.Document} (isRead : IsRead parser source document)
    (complete : document.IsComplete) :
    CommandsAgree parser options types source document
      (ReportBuilder.forFile source.path source.text options.context) where
  returns := exists_file_iff isRead
  agree := by
    intro report isReport site member command isCommand
    rcases List.mem_map.mp ((perm_reports_of_isRead isRead isReport).mem_iff.mp member) with
      ⟨origin, isOrigin, rfl⟩
    have sameText : source.text = document.text := (parser.faithful isRead.parsed).symm
    rw [sameText] at isCommand ⊢
    exact ⟨origin, isOrigin, rfl, origin.exists_agreesWith rfl complete isCommand⟩

theorem commands_agree_with_source_two_rows :
    let types := TypeSet.ofList ["S"]
    let source : SourceFile :=
      { path := "A.java"
        text := "class A\x7bvoid f()\x7b\r\n/*é*/aBinder(()->new\r\nS());\x7d\x7d" }
    IsRead Java.reader source (Java.Document.parse source.text) ∧
      (Java.Document.parse source.text).IsComplete ∧
      ∃ report, file Java.reader .default types source = .ok (.ok report) ∧
        ∃ site ∈ report.value.reports, ∃ command, site.command? = some command ∧
          command.text = "new\r\nS()" ∧
          [command.startLine, command.startColumn, command.endLine, command.endColumn,
            command.startByte, command.endByte] = [2, 18, 3, 3, 37, 45] ∧
          ∃ before part after, command.AgreesWith source.text before part after := by
  intro types source
  have isRead : IsRead Java.reader source (Java.Document.parse source.text) :=
    ⟨by decide +kernel, rfl⟩
  have complete : (Java.Document.parse source.text).IsComplete := by decide +kernel
  have fits : FileFits .default types source (Java.Document.parse source.text) := by
    decide +kernel
  have agreement := commands_agree_with_source .default types isRead complete
  rcases agreement.returns.mpr fits with ⟨report, isReport⟩
  let builder := ReportBuilder.forFile source.path source.text ScanOptions.default.context
  let command : FoundCommand :=
    { kind := .constructorCall
      text := "new\r\nS()"
      startLine := 2
      startColumn := 18
      endLine := 3
      endColumn := 3
      startByte := 37
      endByte := 45
      context? := some
        "      1: class A\x7bvoid f()\x7b\n  ➤   2: /*é*/aBinder(()->new\n  ➤   3: S());\x7d\x7d" }
  have found : ((origins .default (Java.Document.parse source.text)).map fun origin =>
      (origin.report types builder).command?) = [some command] := by
    decide +kernel
  have isFirst : some command ∈
      (origins .default (Java.Document.parse source.text)).map fun origin =>
        (origin.report types builder).command? := by
    rw [found]
    exact List.mem_singleton_self _
  rcases List.mem_map.mp isFirst with ⟨origin, isOrigin, isCommand⟩
  have member : origin.report types builder ∈ report.value.reports :=
    (perm_reports_of_isRead isRead isReport).mem_iff.mpr (List.mem_map.mpr ⟨origin, isOrigin, rfl⟩)
  rcases agreement.agree report isReport _ member command isCommand with
    ⟨_, _, _, _, _, _, agrees⟩
  exact ⟨isRead, complete, report, isReport, _, member, command, isCommand, rfl, rfl, agrees⟩

end Scan
end CommandWiring
