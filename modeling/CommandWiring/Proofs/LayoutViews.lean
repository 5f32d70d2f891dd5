import CommandWiring.Java.Reader
import CommandWiring.Proofs.CompoundNames
import CommandWiring.Proofs.WrappedViews
import Mathlib.Data.Multiset.Defs

/-!
# Views of two layouts

The view of a text does not show its layout: the nodes and their names are the same in every layout
of the same lexemes. A layout can only be seen in a type that is written with several lexemes.
-/

namespace CommandWiring
namespace Java

namespace Place

variable {root : Tree}

theorem isWord_of_name (isUnit : root.IsUnit) {place name : Place root}
    (found : place.inSlot? .name = some name)
    (plain : place.focus.construct?.any Construct.takesQualifiedName = false) :
    ∃ word, name.focus.construct? = some word ∧ word.isWord = true := by
  rcases inSlot?_eq_some.mp found with ⟨isParent, fills⟩
  have isName := slot_of_fills isParent fills
  have isNode := isNode_of_slot isName (by decide)
  rcases Option.isSome_iff_exists.mp isNode with ⟨construct, isConstruct⟩
  rcases seat_of_parent isUnit isParent isConstruct with ⟨outer, isOuter, _, _, seatsName⟩
  rw [isOuter, Option.any_some] at plain
  rw [Shape.seatsName, isName, plain, Bool.or_false, Bool.or_eq_true] at seatsName
  rcases seatsName with unnamed | isWord
  · exact absurd unnamed Bool.false_ne_true
  · exact ⟨construct, isConstruct, isWord⟩

theorem kind_of_takesQualifiedName {place : Place root}
    (qualified : place.focus.construct?.any Construct.takesQualifiedName = true) :
    place.kind = .other := by
  rw [Option.any_eq_true] at qualified
  rcases qualified with ⟨construct, isConstruct, qualified⟩
  unfold kind
  rw [isConstruct]
  cases construct <;> first | rfl | cases qualified

end Place

namespace Document

open SyntaxNode

variable {document image : Document} {casts : Tree -> Bool}

theorem text_of_keepsWord {tree copy : Tree} {word : Construct}
    (kept : keepsWord document.textOf image.textOf tree copy = true)
    (isConstruct : tree.construct? = some word) (isWord : word.isWord = true) :
    document.textOf tree.span = image.textOf copy.span := by
  rw [keepsWord, isConstruct, Option.any_some, isWord, Bool.not_true, Bool.false_or,
    beq_iff_eq] at kept
  exact kept

theorem name?_of_plain {node : document.Node} {twin : image.Node}
    (matched : NodesMatch (keepsWord document.textOf image.textOf) casts node twin)
    (plain : node.place.focus.construct?.any Construct.takesQualifiedName = false) :
    name? node = name? twin := by
  have names := matched.rel_name
  show (node.place.inSlot? .name).map _ = (twin.place.inSlot? .name).map _
  generalize twin.place.inSlot? .name = twinName? at names ⊢
  cases found : node.place.inSlot? .name with
  | none =>
      rw [found] at names
      cases names
      rfl
  | some name =>
      rw [found] at names
      cases names with
      | some both =>
          rcases Place.isWord_of_name document.isUnit_root found plain with ⟨_, isConstruct, isWord⟩
          exact congrArg some (text_of_keepsWord both.2 isConstruct isWord)

/-- For each name that can be written with several lexemes, whether it is read as a command type. -/
def compoundMentions (document : Document) (types : TypeSet) : List Bool :=
  (compoundNames document.textOf document.root).map (counts types)

section

variable (relaid : Tree.Relaid (keepsWord document.textOf image.textOf) document.root image.root)

include relaid

theorem nodesMatch_of_relaid {node : document.Node} {twin : image.Node}
    (twins : Twins document.rootNode image.rootNode node twin) :
    NodesMatch (keepsWord document.textOf image.textOf) (fun _ => false) node twin :=
  nodesMatch_of_twins (relaid.wrapped _) twins

theorem relaid_of_twins {node : document.Node} {twin : image.Node}
    (twins : Twins document.rootNode image.rootNode node twin) :
    Tree.Relaid (keepsWord document.textOf image.textOf) node.place.focus twin.place.focus := by
  -- what is kept has to be a test, and there is none for being relaid
  classical
  have wrapped := relaid.itself.wrapped fun _ => false
  exact of_decide_eq_true (nodesMatch_of_twins wrapped twins).copied.kept

theorem alike_of_relaid : Alike (Twins document.rootNode image.rootNode) := by
  refine alike_of_wrapped (relaid.wrapped fun _ => false) ?_ ?_
  · intro tree copy kept isIdentifier
    exact text_of_keepsWord kept isIdentifier rfl
  · intro node twin matched notOther
    apply name?_of_plain matched
    rw [Bool.eq_false_iff]
    intro qualified
    exact notOther (Place.kind_of_takesQualifiedName qualified)

theorem mentionsAny_of_relaid {types : TypeSet}
    (same : document.compoundMentions types = image.compoundMentions types)
    {node : document.Node} {twin : image.Node}
    (twins : Twins document.rootNode image.rootNode node twin) :
    Search.mentionsAny types node = Search.mentionsAny types twin := by
  have accepted := relaid.accepting
    (fun tree copy kept isType => text_of_keepsWord kept isType rfl) same
  refine mentionsAny_of_wrapped (accepted.wrapped _) ?_ twins
  intro tree copy both
  exact (Bool.and_eq_true_iff.mp both).2

end

end Document

/-!
# Declared types
-/

namespace Declarations

open SyntaxNode

/-- For each declared type the simple names of its supertypes that are more than a name. -/
def compoundSupertypesIn (document : Document) : List (List String) :=
  (collectAll document.rootNode fun node => declaresType node.place.focus).map fun node =>
    compoundSupertypes document node.place.focus

theorem plain_of_declaresType {tree : Tree} (isDeclared : declaresType tree = true) :
    tree.construct?.any Construct.takesQualifiedName = false := by
  simp only [declaresType, Bool.or_eq_true, beq_iff_eq] at isDeclared
  rcases isDeclared with ((isClass | isInterface) | isEnum) | isRecord
  · rw [isClass]
    rfl
  · rw [isInterface]
    rfl
  · rw [isEnum]
    rfl
  · rw [isRecord]
    rfl

variable {document image : Document}

theorem inDocument_eq
    (relaid : Tree.Relaid (keepsWord document.textOf image.textOf) document.root image.root)
    (same : compoundSupertypesIn document = compoundSupertypesIn image) :
    inDocument document = inDocument image := by
  have agree : ∀ node twin, Twins document.rootNode image.rootNode node twin ->
      declaresType node.place.focus = declaresType twin.place.focus := by
    intro node twin twins
    rw [declaresType, declaresType, (Document.relaid_of_twins relaid twins).construct]
  have declared := (Document.alike_of_relaid relaid).collectAll agree
    (.here : Twins document.rootNode image.rootNode _ _)
  have areDeclared : ∀ node ∈ collectAll document.rootNode fun node =>
      declaresType node.place.focus, declaresType node.place.focus = true :=
    fun node member => (of_mem_collectAll member).2
  unfold inDocument
  unfold compoundSupertypesIn at same
  generalize collectAll document.rootNode _ = nodes, collectAll image.rootNode _ = twins
    at declared areDeclared same ⊢
  induction declared with
  | nil => rfl
  | @cons node twin nodes twinNodes pair _ ih =>
      rw [List.map_cons, List.map_cons, List.cons.injEq] at same
      have names : name? node = name? twin := by
        apply Document.name?_of_plain (Document.nodesMatch_of_relaid relaid pair)
        exact plain_of_declaresType (areDeclared node List.mem_cons_self)
      have supertypes : supertypes document node.place.focus =
          supertypes image twin.place.focus := by
        refine (Document.relaid_of_twins relaid pair).supertypes_eq ?_ same.1
        intro tree copy kept isType
        exact Document.text_of_keepsWord kept isType rfl
      have declarations : declaration? document node = declaration? image twin := by
        rw [declaration?, declaration?, names, supertypes]
      rw [List.filterMap_cons, List.filterMap_cons, declarations,
        ih (fun node member => areDeclared node (List.mem_cons_of_mem _ member)) same.2]

end Declarations
end Java

/-!
# Files
-/

namespace Scan

open Java

/-- The parser reads two texts as one tree in two layouts. -/
structure ReadAlike (parser : Parser) (first second : String) (document copy : Document) :
    Prop where
  isFirst : parser.parse first = .ok document
  isSecond : parser.parse second = .ok copy
  relaid : Tree.Relaid (keepsWord document.textOf copy.textOf) document.root copy.root

/-- What the reports on a file say, in no particular order. -/
def findings (parser : Parser) (options : ScanOptions) (types : TypeSet) (source : SourceFile) :
    Checked (Except FileError (Multiset SiteReport.Finding)) :=
  (file parser options types source).map fun file => file.map fun report =>
    (report.value.reports.map SiteReport.finding : Multiset SiteReport.Finding)

theorem findings_of_fits {parser : Parser} {options : ScanOptions} {types : TypeSet}
    {source : SourceFile} {document : Document} (isRead : IsRead parser source document)
    (fits : FileFits options types source document) :
    findings parser options types source =
      .ok (.ok (((unboundedFile options types source document).value.reports.map
        SiteReport.finding : List SiteReport.Finding) : Multiset SiteReport.Finding)) := by
  rw [findings, file_of_fits isRead fits]
  rfl

theorem exists_findings_iff {parser : Parser} {options : ScanOptions} {types : TypeSet}
    {source : SourceFile} {document : Document} (isRead : IsRead parser source document) :
    (∃ found, findings parser options types source = .ok (.ok found)) ↔
      FileFits options types source document := by
  constructor
  · rintro ⟨found, isFound⟩
    by_cases fits : FileFits options types source document
    · exact fits
    · rw [findings, file_of_not_fits isRead fits] at isFound
      cases isFound
  · intro fits
    exact ⟨_, findings_of_fits isRead fits⟩

theorem findings_eq {parser : Parser} (options : ScanOptions) {types : TypeSet} (path : String)
    {first second : String} {document copy : Document}
    (alike : ReadAlike parser first second document copy)
    (names : document.compoundMentions types = copy.compoundMentions types)
    (fits : FileFits options types ⟨path, first⟩ document)
    (copyFits : FileFits options types ⟨path, second⟩ copy) :
    findings parser options types ⟨path, first⟩ =
      findings parser options types ⟨path, second⟩ := by
  cases supported : Language.ofPath? path with
  | none => rw [findings, findings, file, file, supported]
  | some language =>
      rcases ofPath?_eq_some supported with rfl
      have isRead : IsRead parser ⟨path, first⟩ document := ⟨supported, alike.isFirst⟩
      have isCopyRead : IsRead parser ⟨path, second⟩ copy := ⟨supported, alike.isSecond⟩
      have mentions : ∀ node twin, SyntaxNode.Twins document.rootNode copy.rootNode node twin ->
          Search.mentionsAny types node = Search.mentionsAny types twin :=
        fun _ _ twins => Document.mentionsAny_of_relaid alike.relaid names twins
      have same := (Document.alike_of_relaid alike.relaid).findings_eq mentions options
        (ReportBuilder.forFile path first options.context)
        (ReportBuilder.forFile path second options.context)
      rw [findings_of_fits isRead fits, findings_of_fits isCopyRead copyFits]
      refine congrArg (fun found => Except.ok (Except.ok found)) (Multiset.coe_eq_coe.mpr ?_)
      refine ((unboundedReports_perm options types _ document).map SiteReport.finding).trans ?_
      rw [same]
      exact ((unboundedReports_perm options types _ copy).map SiteReport.finding).symm

theorem declaredTypes_of_parsed {parser : Parser} {source : SourceFile} {document : Document}
    (parsed : parser.parse source.text = .ok document) :
    (declaredTypes parser source).value = Declarations.inDocument document := by
  rw [declaredTypes, parseFile, parsed]
  rfl

/-- The parser reads two sources as one tree in two layouts, and supertypes that are more than a
name have the same simple names in both of them. -/
def DeclareAlike (parser : Parser) (source other : SourceFile) : Prop :=
  ∃ document copy, ReadAlike parser source.text other.text document copy ∧
    Declarations.compoundSupertypesIn document = Declarations.compoundSupertypesIn copy

theorem commandTypes_eq {parser : Parser} (options : ScanOptions)
    {sources others : List SourceFile}
    (pairs : List.Forall₂ (DeclareAlike parser) sources others) :
    (commandTypes parser options sources).value =
      (commandTypes parser options others).value := by
  have declarations : (Logged.forEach (declaredTypes parser) sources).value =
      (Logged.forEach (declaredTypes parser) others).value := by
    show (sources.map (declaredTypes parser)).map Logged.value =
      (others.map (declaredTypes parser)).map Logged.value
    rw [List.map_map, List.map_map, ← List.forall₂_eq_eq_eq]
    refine List.rel_map ?_ pairs
    rintro source other ⟨document, copy, alike, same⟩
    show (declaredTypes parser source).value = (declaredTypes parser other).value
    rw [declaredTypes_of_parsed alike.isFirst, declaredTypes_of_parsed alike.isSecond]
    exact Declarations.inDocument_eq alike.relaid same
  show TypeSet.resolve (Logged.forEach (declaredTypes parser) sources).value.flatten _ =
    TypeSet.resolve (Logged.forEach (declaredTypes parser) others).value.flatten _
  rw [declarations]

/-- What does not depend on the layout of files. -/
structure IgnoresLayout (parser : Parser) (options : ScanOptions) : Prop where
  /-- There is something to compare as long as the contexts of all commands fit. -/
  returns : ∀ types source document, IsRead parser source document ->
    ((∃ found, findings parser options types source = .ok (.ok found)) ↔
      FileFits options types source document)
  findings : ∀ types path first second document copy,
    ReadAlike parser first second document copy ->
    document.compoundMentions types = copy.compoundMentions types ->
    FileFits options types ⟨path, first⟩ document -> FileFits options types ⟨path, second⟩ copy ->
    findings parser options types ⟨path, first⟩ = findings parser options types ⟨path, second⟩
  commandTypes : ∀ sources others, List.Forall₂ (DeclareAlike parser) sources others ->
    (commandTypes parser options sources).value = (commandTypes parser options others).value

/-- The layout of files does not matter, except inside names that are written with several lexemes.
What is reported of two files with the same lexemes is the same if such names are command types in
both of them or in neither, and the same types are commands if such supertypes have the same simple
names. -/
theorem layout_does_not_matter (parser : Parser) (options : ScanOptions) :
    IgnoresLayout parser options where
  returns _ _ _ isRead := exists_findings_iff isRead
  findings _ path _ _ _ _ alike names fits copyFits :=
    findings_eq options path alike names fits copyFits
  commandTypes _ _ pairs := commandTypes_eq options pairs

theorem readAlike_reader {first second : String} (same : SameLexemes first second) :
    ReadAlike reader first second (.parse first) (.parse second) where
  isFirst := rfl
  isSecond := rfl
  relaid := Document.relaid_parse same

theorem layout_does_not_matter_spaced_names :
    let types := TypeSet.ofList ["S"]
    let first := "class A{{aBinder(p.S::new);}}"
    let second := "class A{{aBinder(p .S::/**/new);}}"
    let source := "class A extends p.Command{}"
    let other := "class A/**/extends p. Command{}"
    findings reader .default types ⟨"A.java", first⟩ = .ok (.ok (.ofList
        [{ siteKind := .binder, siteName := "aBinder", matchKind? := some .methodReference
           reason? := none }])) ∧
      findings reader .default types ⟨"A.java", first⟩ =
        findings reader .default types ⟨"A.java", second⟩ ∧
      (commandTypes reader .default [⟨"A.java", source⟩]).value =
        (commandTypes reader .default [⟨"A.java", other⟩]).value := by
  intro types first second source other
  have tested : SameLexemes first second ∧ SameLexemes source other ∧
      (Document.parse first).compoundMentions types =
        (Document.parse second).compoundMentions types ∧
      Declarations.compoundSupertypesIn (Document.parse source) =
        Declarations.compoundSupertypesIn (Document.parse other) ∧
      FileFits .default types ⟨"A.java", first⟩ (Document.parse first) ∧
      FileFits .default types ⟨"A.java", second⟩ (Document.parse second) ∧
      findings reader .default types ⟨"A.java", first⟩ = .ok (.ok (.ofList
        [{ siteKind := .binder, siteName := "aBinder", matchKind? := some .methodReference
           reason? := none }])) := by
    decide +kernel
  rcases tested with ⟨lexemes, otherLexemes, mentions, supertypes, fits, copyFits, found⟩
  have ignores := layout_does_not_matter reader .default
  exact ⟨found, ignores.findings types "A.java" first second _ _ (readAlike_reader lexemes)
      mentions fits copyFits,
    ignores.commandTypes _ _ (.cons ⟨_, _, readAlike_reader otherLexemes, supertypes⟩ .nil)⟩

/-- A comment behind the last dot of a qualified name is read as a part of the name. -/
theorem layout_shows_in_commented_name :
    let types := TypeSet.ofList ["S"]
    let first := "class S extends p.Command{S(){b(()->new p.S());}}"
    let second := "class S extends p./**/Command{S(){b(()->new p./**/S());}}"
    ReadAlike reader first second (.parse first) (.parse second) ∧
      findings reader .default types ⟨"S.java", first⟩ ≠
        findings reader .default types ⟨"S.java", second⟩ ∧
      (commandTypes reader .default [⟨"S.java", first⟩]).value ≠
        (commandTypes reader .default [⟨"S.java", second⟩]).value := by
  intro types first second
  have tested : SameLexemes first second ∧
      findings reader .default types ⟨"S.java", first⟩ ≠
        findings reader .default types ⟨"S.java", second⟩ ∧
      (commandTypes reader .default [⟨"S.java", first⟩]).value ≠
        (commandTypes reader .default [⟨"S.java", second⟩]).value := by
    decide +kernel
  exact ⟨readAlike_reader tested.1, tested.2⟩

end Scan
end CommandWiring
