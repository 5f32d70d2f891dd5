import CommandWiring.Java.Reader
import CommandWiring.Proofs.Reports
import CommandWiring.Proofs.TextLines
import CommandWiring.Proofs.WrittenNames
import Mathlib.Data.List.Pairwise
import Mathlib.Data.Set.Function

/-!
# What identifies a report

The text behind the identifier of a report tells the path of the file, the name of the site and
where the site begins: the fields are read off from the end, since no colon stands in the last
three. No two classes begin at one place, nor do a class and a site. Two sites can: a receiver that
is no call may begin with a call, and then both have the same text if they have the same binder
name.
-/

namespace CommandWiring

open SyntaxNode

/-!
# Fields between colons
-/

theorem eq_of_append_separator {α : Type} {separator : α} {front back rest other : List α}
    (unseen : separator ∉ rest) (otherUnseen : separator ∉ other)
    (same : front ++ [separator] ++ rest = back ++ [separator] ++ other) :
    front = back ∧ rest = other := by
  rw [List.append_assoc, List.append_assoc, List.append_eq_append_iff] at same
  rcases same with ⟨middle, isBack, isRest⟩ | ⟨middle, isFront, isOther⟩
  · cases middle with
    | nil => exact ⟨(List.append_nil front ▸ isBack).symm, (List.cons.inj isRest).2⟩
    | cons first more =>
        have isTail : rest = more ++ ([separator] ++ other) := (List.cons.inj isRest).2
        rw [isTail] at unseen
        exact absurd (List.mem_append_right more List.mem_cons_self) unseen
  · cases middle with
    | nil => exact ⟨List.append_nil back ▸ isFront, (List.cons.inj isOther).2.symm⟩
    | cons first more =>
        have isTail : other = more ++ ([separator] ++ rest) := (List.cons.inj isOther).2
        rw [isTail] at otherUnseen
        exact absurd (List.mem_append_right more List.mem_cons_self) otherUnseen

theorem colon_notMem_toString (number : Nat) : ':' ∉ (toString number).toList := by
  intro member
  exact absurd (Text.isDigit_of_mem_toString member) (by decide)

theorem toNat_eq_of_toString_eq {first second : UInt32}
    (same : (toString first.toNat).toList = (toString second.toNat).toList) : first = second := by
  apply UInt32.toNat_inj.mp
  exact eq_of_toString_eq (String.toList_inj.mp same)

namespace SiteReport

variable {path other name otherName : String} {line column otherLine otherColumn : UInt32}

theorem of_idSource_eq
    (same : idSource path name line column = idSource other otherName otherLine otherColumn) :
    path.toList ++ [':'] ++ name.toList = other.toList ++ [':'] ++ otherName.toList ∧
      line = otherLine ∧ column = otherColumn := by
  have lists := congrArg String.toList same
  simp only [idSource, String.toList_append] at lists
  rcases eq_of_append_separator (colon_notMem_toString _) (colon_notMem_toString _) lists with
    ⟨front, columns⟩
  rcases eq_of_append_separator (colon_notMem_toString _) (colon_notMem_toString _) front with
    ⟨names, lines⟩
  exact ⟨names, toNat_eq_of_toString_eq lines, toNat_eq_of_toString_eq columns⟩

theorem idSource_injective
    (same : idSource path name line column = idSource path otherName otherLine otherColumn) :
    name = otherName ∧ line = otherLine ∧ column = otherColumn := by
  rcases of_idSource_eq same with ⟨names, lines, columns⟩
  exact ⟨String.toList_inj.mp (List.append_cancel_left names), lines, columns⟩

theorem idSource_eq_iff_of_colon_notMem (noColon : ':' ∉ name.toList)
    (otherNoColon : ':' ∉ otherName.toList) :
    idSource path name line column = idSource other otherName otherLine otherColumn ↔
      path = other ∧ name = otherName ∧ line = otherLine ∧ column = otherColumn := by
  constructor
  · intro same
    rcases of_idSource_eq same with ⟨front, lines, columns⟩
    rcases eq_of_append_separator noColon otherNoColon front with ⟨paths, names⟩
    exact ⟨String.toList_inj.mp paths, String.toList_inj.mp names, lines, columns⟩
  · intro given
    rcases given with ⟨rfl, rfl, rfl, rfl⟩
    rfl

end SiteReport

theorem Java.colon_notMem_of_isWrittenName {name : String}
    (isWritten : Java.isWrittenName name = true) : ':' ∉ name.toList :=
  (Java.isName_of_isWrittenName isWritten).notMem (by decide)

/-- The text behind an identifier tells the path of the file, with slashes, the name of the site and
its place, whatever colons and digits stand in the path, if there is no colon in the names. There is
none in the names of a program. So two identifiers are the same exactly if they stand for one site
of one path, or else different texts have one digest. -/
theorem ReportBuilder.idSource_tells_site {path other : String} (content otherContent : String)
    (context otherContext : ContextOptions) {name otherName : String}
    (line column otherLine otherColumn : UInt32) (noColon : ':' ∉ name.toList)
    (otherNoColon : ':' ∉ otherName.toList) :
    let filePath := (forFile path content context).filePath
    let otherFilePath := (forFile other otherContent otherContext).filePath
    let source := SiteReport.idSource filePath name line column
    let otherSource := SiteReport.idSource otherFilePath otherName otherLine otherColumn
    (source = otherSource ↔
      Path.slashed path = Path.slashed other ∧ name = otherName ∧ line = otherLine ∧
        column = otherColumn) ∧
    (SiteReport.idOf filePath name line column =
        SiteReport.idOf otherFilePath otherName otherLine otherColumn ↔
      (Path.slashed path = Path.slashed other ∧ name = otherName ∧ line = otherLine ∧
        column = otherColumn) ∨
      (source ≠ otherSource ∧ Digest.MD5.hex source = Digest.MD5.hex otherSource)) ∧
    ∀ written, Java.isWrittenName written = true -> ':' ∉ written.toList := by
  intro filePath otherFilePath source otherSource
  have tells : source = otherSource ↔ Path.slashed path = Path.slashed other ∧
      name = otherName ∧ line = otherLine ∧ column = otherColumn :=
    SiteReport.idSource_eq_iff_of_colon_notMem noColon otherNoColon
  refine ⟨tells, ?_, fun _ isWritten => Java.colon_notMem_of_isWrittenName isWritten⟩
  rw [← tells]
  constructor
  · intro sameDigest
    by_cases same : source = otherSource
    · exact Or.inl same
    · exact Or.inr ⟨same, sameDigest⟩
  · intro given
    rcases given with same | ⟨_, sameDigest⟩
    · exact congrArg Digest.MD5.hex same
    · exact sameDigest

/-- A path that ends like a name and a line. -/
theorem ReportBuilder.idSource_tells_site_behind_colons :
    let filePath := (forFile "D:\\A.java:f:1" "" {}).filePath
    let otherFilePath := (forFile "D:/A.java" "" {}).filePath
    ':' ∉ "f".toList ∧
      SiteReport.idSource filePath "f" 1 2 ≠ SiteReport.idSource otherFilePath "f" 1 2 := by
  intro filePath otherFilePath
  have noColon : ':' ∉ "f".toList := Java.colon_notMem_of_isWrittenName (by decide)
  refine ⟨noColon, ?_⟩
  intro same
  have paths := ((idSource_tells_site "" "" {} {} 1 2 1 2 noColon noColon).1.mp same).1
  exact absurd paths (by decide)

/-- A colon in a name would be taken for the end of the path. -/
example : SiteReport.idSource "a" "b:c" 1 2 = SiteReport.idSource "a:b" "c" 1 2 := by
  decide

/-!
# Origins at one place
-/

/-- Two sites whose first calls begin at one place and whose binders have one name. -/
def BinderSite.Clashes {document : Java.Document} (first second : BinderSite document.Node) :
    Prop :=
  first.binderName = second.binderName ∧
    first.invocation.span.start = second.invocation.span.start

instance {document : Java.Document} (first second : BinderSite document.Node) :
    Decidable (first.Clashes second) :=
  inferInstanceAs (Decidable (_ ∧ _))

namespace Origin

variable {document : Java.Document}

/-- The text behind the identifier of a report. -/
def idSource (filePath : String) (origin : Origin document) : String :=
  let start := ReportBuilder.position document origin.node.span.start
  SiteReport.idSource filePath origin.name (UInt32.ofNat (start.row + 1))
    (UInt32.ofNat start.column)

end Origin

namespace Scan

variable {document : Java.Document}

theorem idSource_eq_iff {options : ScanOptions} (small : document.text.utf8ByteSize < UInt32.size)
    (filePath : String) {first second : Origin document}
    (isFirst : first ∈ origins options document) (isSecond : second ∈ origins options document) :
    first.idSource filePath = second.idSource filePath ↔
      first.name = second.name ∧ first.node.span.start = second.node.span.start := by
  constructor
  · intro same
    rcases SiteReport.idSource_injective same with ⟨sameName, sameLine, sameColumn⟩
    have startLt {origin : Origin document} (member : origin ∈ origins options document) :
        origin.node.span.start < document.text.utf8ByteSize := by
      rcases of_mem_origins member with ⟨_, filled, stops⟩
      exact Nat.lt_of_lt_of_le filled stops
    let bytes := document.text.toUTF8.toList
    have isLength : bytes.length = document.text.utf8ByteSize := Text.length_toList _
    have rowLe (byte : Nat) := Text.row_positionOf_le bytes byte
    have columnLe (byte : Nat) := Text.column_positionOf_le bytes byte
    have sameRow := ofNat_inj_of_le small
      (Nat.le_trans (Nat.succ_le_succ (rowLe _)) (startLt isFirst))
      (Nat.le_trans (Nat.succ_le_succ (rowLe _)) (startLt isSecond)) sameLine
    have sameOffset := ofNat_inj_of_le small
      (Nat.le_trans (columnLe _) (Nat.le_of_lt (startLt isFirst)))
      (Nat.le_trans (columnLe _) (Nat.le_of_lt (startLt isSecond))) sameColumn
    have samePosition : Text.positionOf bytes first.node.span.start =
        Text.positionOf bytes second.node.span.start :=
      congrArg₂ Text.Position.mk (Nat.succ.inj sameRow) sameOffset
    refine ⟨sameName, Text.positionOf_injective ?_ ?_ samePosition⟩
    · rw [isLength]
      exact Nat.le_of_lt (startLt isFirst)
    · rw [isLength]
      exact Nat.le_of_lt (startLt isSecond)
  · intro given
    rcases given with ⟨sameName, sameStart⟩
    rw [Origin.idSource, Origin.idSource, sameName, sameStart]

theorem invocation_injective {options : ScanOptions} {first second : BinderSite document.Node}
    (isFirst : first ∈ sites options document) (isSecond : second ∈ sites options document)
    (same : first.invocation = second.invocation) : first = second := by
  rw [sites, BinderSite.value_inDocument] at isFirst isSecond
  rcases List.mem_filterMap.mp isFirst with ⟨start, _, atStart⟩
  rcases List.mem_filterMap.mp isSecond with ⟨other, _, atOther⟩
  have isStart := (BinderSite.value_atInvocation?.mp atStart).1
  have isOther := (BinderSite.value_atInvocation?.mp atOther).1
  rw [← isStart, same, isOther, atOther] at atStart
  exact (Option.some.inj atStart).symm

/-- A class begins nowhere where another class or a site begins. -/
theorem start_ne_of_scope {options : ScanOptions} {owner : document.Node} {origin : Origin document}
    (isScope : owner ∈ scopes options document) (member : origin ∈ origins options document)
    (different : origin ≠ .inScope owner) :
    origin.node.span.start ≠ owner.span.start := by
  intro same
  rcases of_mem_scopes isScope with ⟨⟨_, reached⟩, isClass, noSite⟩
  rcases of_mem_origins member with ⟨⟨_, otherReached⟩, filled, _⟩
  have notRoot {node : document.Node} (notOther : kind node ≠ .other) :
      node ≠ document.rootNode := by
    intro same
    subst same
    exact notOther (Java.Document.kind_rootNode document)
  have nested := Java.Document.nested_of_start_eq otherReached reached filled
    (owner.isFilled_of_kind (Or.inr (Or.inr isClass))) same
  cases origin with
  | atSite site =>
      have isSite := mem_origins_atSite.mp member
      rcases of_mem_sites isSite with ⟨_, isCall⟩
      rcases nested with isOwner | ⟨steps, below⟩ | ⟨steps, below⟩
      · have isOwner : site.invocation = owner := isOwner
        rw [← isOwner, isCall] at isClass
        cases isClass
      · have less := Java.Document.start_lt_of_descends otherReached below isClass
          (notRoot (by rw [Origin.node, isCall]; exact nofun))
        omega
      · rcases document.ordered.inside_of_descends reached below with ⟨starts, stops⟩
        have contained : owner.contains site.invocation = true := by
          rw [Java.Document.Node.contains, Bool.and_eq_true]
          exact ⟨decide_eq_true starts, decide_eq_true stops⟩
        have hasOne : hasSite (sites options document) owner = true :=
          List.any_eq_true.mpr ⟨site, isSite, contained⟩
        rw [noSite] at hasOne
        cases hasOne
  | inScope other =>
      rcases of_mem_scopes (mem_origins_inScope.mp member) with ⟨_, otherIsClass, _⟩
      rcases nested with rfl | ⟨steps, below⟩ | ⟨steps, below⟩
      · exact different rfl
      · have less := Java.Document.start_lt_of_descends otherReached below isClass
          (notRoot (by rw [Origin.node, otherIsClass]; exact nofun))
        omega
      · have less := Java.Document.start_lt_of_descends reached below otherIsClass
          (notRoot (by rw [isClass]; exact nofun))
        omega

theorem clashes_iff {options : ScanOptions} (small : document.text.utf8ByteSize < UInt32.size)
    (filePath : String) {first second : Origin document}
    (isFirst : first ∈ origins options document) (isSecond : second ∈ origins options document)
    (different : first ≠ second) :
    first.idSource filePath = second.idSource filePath ↔
      ∃ one other, first = .atSite one ∧ second = .atSite other ∧ one.Clashes other := by
  rw [idSource_eq_iff small filePath isFirst isSecond]
  constructor
  · intro given
    rcases given with ⟨sameName, sameStart⟩
    cases first with
    | inScope owner =>
        exact absurd sameStart.symm
          (start_ne_of_scope (mem_origins_inScope.mp isFirst) isSecond different.symm)
    | atSite one =>
        cases second with
        | inScope owner =>
            exact absurd sameStart
              (start_ne_of_scope (mem_origins_inScope.mp isSecond) isFirst different)
        | atSite other => exact ⟨one, other, rfl, rfl, sameName, sameStart⟩
  · intro given
    rcases given with ⟨one, other, rfl, rfl, clashes⟩
    exact clashes

theorem nested_of_clashes {options : ScanOptions} {first second : BinderSite document.Node}
    (isFirst : first ∈ sites options document) (isSecond : second ∈ sites options document)
    (different : first ≠ second) (clashes : first.Clashes second) :
    (∃ steps, Descends first.invocation (steps + 1) second.invocation) ∨
      ∃ steps, Descends second.invocation (steps + 1) first.invocation := by
  rcases of_mem_sites isFirst with ⟨⟨_, reached⟩, isCall⟩
  rcases of_mem_sites isSecond with ⟨⟨_, otherReached⟩, otherIsCall⟩
  rcases Java.Document.nested_of_start_eq reached otherReached
    (first.invocation.isFilled_of_kind (Or.inl isCall))
    (second.invocation.isFilled_of_kind (Or.inl otherIsCall)) clashes.2 with same | nested
  · exact absurd (invocation_injective isFirst isSecond same) different
  · exact nested

theorem nodup_digests_iff {options : ScanOptions} (small : document.text.utf8ByteSize < UInt32.size)
    (filePath : String)
    (injective : Set.InjOn Digest.MD5.hex
      {text | ∃ origin ∈ origins options document, origin.idSource filePath = text}) :
    ((origins options document).map fun origin => Digest.MD5.hex (origin.idSource filePath)).Nodup ↔
      (sites options document).Pairwise fun one other => ¬ one.Clashes other := by
  constructor
  · intro distinct
    have onOrigins := List.pairwise_map.mp distinct
    have onSites := List.pairwise_map.mp (onOrigins.sublist (List.sublist_append_left _ _))
    refine onSites.imp_of_mem ?_
    intro one other isOne isOther differ clashes
    have sameText := (idSource_eq_iff small filePath (mem_origins_atSite.mpr isOne)
      (mem_origins_atSite.mpr isOther)).mpr clashes
    exact differ (congrArg Digest.MD5.hex sameText)
  · intro apart
    refine List.Nodup.map_on ?_ (nodup_origins options document)
    intro first isFirst second isSecond sameDigest
    have sameText := injective ⟨first, isFirst, rfl⟩ ⟨second, isSecond, rfl⟩ sameDigest
    by_cases same : first = second
    · exact same
    · rcases (clashes_iff small filePath isFirst isSecond same).mp sameText with
        ⟨one, other, rfl, rfl, clashes⟩
      have isSymm : Std.Symm fun one other : BinderSite document.Node => ¬ one.Clashes other :=
        ⟨fun _ _ apart clash => apart ⟨clash.1.symm, clash.2.symm⟩⟩
      have notClashes := apart.forall (mem_origins_atSite.mp isFirst)
        (mem_origins_atSite.mp isSecond) fun sameSite => same (congrArg Origin.atSite sameSite)
      exact absurd clashes notClashes

/-!
# Identifiers of a file
-/

theorem perm_ids_of_isRead {parser : Java.Parser} {options : ScanOptions} {types : TypeSet}
    {source : SourceFile} (isRead : IsRead parser source document) {report : Logged FileReport}
    (isReport : file parser options types source = .ok (.ok report)) :
    (report.value.reports.map SiteReport.id).Perm
      ((origins options document).map fun origin =>
        Digest.MD5.hex (origin.idSource (Path.slashed source.path))) := by
  have mapped := (perm_reports_of_isRead isRead isReport).map SiteReport.id
  rw [List.map_map] at mapped
  exact mapped

/-- How the reports of a file are identified. -/
structure IdsTellOrigins (parser : Java.Parser) (options : ScanOptions) (types : TypeSet)
    (source : SourceFile) (document : Java.Document) (textOf : Origin document -> String) :
    Prop where
  returns : (∃ report, file parser options types source = .ok (.ok report)) ↔
    FileFits options types source document
  nodup : (origins options document).Nodup
  ids : ∀ report, file parser options types source = .ok (.ok report) ->
    (report.value.reports.map SiteReport.id).Perm
      ((origins options document).map fun origin => Digest.MD5.hex (textOf origin))
  clashes : ∀ first ∈ origins options document, ∀ second ∈ origins options document,
    first ≠ second ->
    (textOf first = textOf second ↔
      ∃ one other, first = .atSite one ∧ second = .atSite other ∧ one.Clashes other)
  nested : ∀ one ∈ sites options document, ∀ other ∈ sites options document, one ≠ other ->
    one.Clashes other ->
    (∃ steps, Descends one.invocation (steps + 1) other.invocation) ∨
      ∃ steps, Descends other.invocation (steps + 1) one.invocation
  distinct : ∀ report, file parser options types source = .ok (.ok report) ->
    Set.InjOn Digest.MD5.hex
      {text | ∃ origin ∈ origins options document, textOf origin = text} ->
    ((report.value.reports.map SiteReport.id).Nodup ↔
      (sites options document).Pairwise fun one other => ¬ one.Clashes other)

/-- Each report of a file is identified by the name and the place of its origin. Two reports have
the same text behind their identifiers exactly if they are on clashing sites, one of which stands
in the other. So if no digest is shared by different texts, the identifiers are distinct exactly if
no two sites clash. -/
theorem ids_distinct_iff (options : ScanOptions) (types : TypeSet) {parser : Java.Parser}
    {source : SourceFile} (isRead : IsRead parser source document)
    (small : source.text.utf8ByteSize < UInt32.size) :
    IdsTellOrigins parser options types source document fun origin =>
      origin.idSource (Path.slashed source.path) := by
  have documentSmall : document.text.utf8ByteSize < UInt32.size := by
    rwa [parser.faithful isRead.parsed]
  exact {
    returns := exists_file_iff isRead
    nodup := nodup_origins options document
    ids := fun report isReport => perm_ids_of_isRead isRead isReport
    clashes := fun first isFirst second isSecond different =>
      clashes_iff documentSmall (Path.slashed source.path) isFirst isSecond different
    nested := fun one isOne other isOther different clashes =>
      nested_of_clashes isOne isOther different clashes
    distinct := by
      intro report isReport injective
      rw [(perm_ids_of_isRead isRead isReport).nodup_iff]
      exact nodup_digests_iff documentSmall (Path.slashed source.path) injective }

theorem ids_distinct_iff_at_two_calls :
    let source : SourceFile := { path := "A.java", text := "class A{{aBinder(x);aBinder(y);}}" }
    let document := Java.Document.parse source.text
    IsRead Java.reader source document ∧ source.text.utf8ByteSize < UInt32.size ∧
      (sites .default document).length = 2 ∧
      ∃ report, file Java.reader .default (TypeSet.ofList []) source = .ok (.ok report) ∧
        (Set.InjOn Digest.MD5.hex {text | ∃ origin ∈ origins .default document,
          origin.idSource (Path.slashed source.path) = text} ->
          (report.value.reports.map SiteReport.id).Nodup) := by
  intro source document
  have isRead : IsRead Java.reader source document := ⟨by decide +kernel, rfl⟩
  have small : source.text.utf8ByteSize < UInt32.size := by decide +kernel
  have fits : FileFits .default (TypeSet.ofList []) source document := by decide +kernel
  have apart : (sites .default document).Pairwise fun one other => ¬ one.Clashes other := by
    decide +kernel
  have tells := ids_distinct_iff .default (TypeSet.ofList []) isRead small
  rcases tells.returns.mpr fits with ⟨report, isReport⟩
  refine ⟨isRead, small, by decide +kernel, report, isReport, ?_⟩
  intro injective
  exact (tells.distinct report isReport injective).mpr apart

/-- A call on a field of what another call of the same name gives. -/
theorem ids_not_distinct_at_field_of_call :
    let source : SourceFile :=
      { path := "A.java", text := "class A{void f(){aBinder(x).f.aBinder(y);}}" }
    ∃ report, file Java.reader .default (TypeSet.ofList []) source = .ok (.ok report) ∧
      ¬ (report.value.reports.map SiteReport.id).Nodup := by
  intro source
  have isRead : IsRead Java.reader source (Java.Document.parse source.text) :=
    ⟨by decide +kernel, rfl⟩
  have fits : FileFits .default (TypeSet.ofList []) source
      (Java.Document.parse source.text) := by
    decide +kernel
  have isReport := file_of_fits isRead fits
  refine ⟨_, isReport, ?_⟩
  rw [(perm_ids_of_isRead isRead isReport).nodup_iff]
  intro distinct
  have texts : ((origins .default (Java.Document.parse source.text)).map
      fun origin => origin.idSource (Path.slashed source.path)).Nodup := by
    apply List.Nodup.of_map Digest.MD5.hex
    rw [List.map_map]
    exact distinct
  exact absurd texts (by decide +kernel)

end Scan
end CommandWiring
