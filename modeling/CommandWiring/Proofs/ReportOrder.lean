import CommandWiring.Java.Reader
import CommandWiring.Proofs.Positions
import CommandWiring.Proofs.Reports

/-!
# The order of reports

The reports on sites come in the order of the text, and so do the reports on classes. Sorting them
by line is stable, so each of the two groups keeps its order, and on one line the sites stay in
front.
-/

namespace CommandWiring

open SyntaxNode

/-!
# Stable sorting
-/

section

variable {α : Type} {le : α -> α -> Bool} {wanted : α -> Bool} {elements : List α}

theorem filter_mergeSort (trans : ∀ a b c, le a b = true -> le b c = true -> le a c = true)
    (total : ∀ a b, (le a b || le b a) = true)
    (sorted : (elements.filter wanted).Pairwise fun first second => le first second = true) :
    (elements.mergeSort le).filter wanted = elements.filter wanted := by
  have inSorted : (elements.filter wanted).Sublist (elements.mergeSort le) :=
    List.sublist_mergeSort trans total sorted List.filter_sublist
  have kept : (elements.filter wanted).Sublist ((elements.mergeSort le).filter wanted) := by
    have filtered := inSorted.filter wanted
    rwa [List.filter_filter, funext fun element => Bool.and_self (wanted element)] at filtered
  have sameLength := ((List.mergeSort_perm elements le).filter wanted).length_eq
  exact (kept.eq_of_length sameLength.symm).symm

end

namespace Scan

theorem siteLine_trans (a b c : SiteReport) (first : decide (a.siteLine ≤ b.siteLine) = true)
    (second : decide (b.siteLine ≤ c.siteLine) = true) :
    decide (a.siteLine ≤ c.siteLine) = true :=
  decide_eq_true (UInt32.le_trans (of_decide_eq_true first) (of_decide_eq_true second))

theorem siteLine_total (a b : SiteReport) :
    (decide (a.siteLine ≤ b.siteLine) || decide (b.siteLine ≤ a.siteLine)) = true := by
  rw [Bool.or_eq_true, decide_eq_true_iff, decide_eq_true_iff]
  exact UInt32.le_total a.siteLine b.siteLine

theorem ascending_byLine (reports : List SiteReport) :
    (byLine reports).Pairwise fun first second => first.siteLine ≤ second.siteLine :=
  (List.pairwise_mergeSort siteLine_trans siteLine_total reports).imp of_decide_eq_true

theorem filter_byLine {wanted : SiteReport -> Bool} {reports : List SiteReport}
    (ascending : (reports.filter wanted).Pairwise fun first second =>
      first.siteLine ≤ second.siteLine) :
    (byLine reports).filter wanted = reports.filter wanted :=
  filter_mergeSort siteLine_trans siteLine_total (ascending.imp decide_eq_true)

/-- What holds of any two reports of one line in their order still holds when they are sorted. -/
theorem pairwise_byLine {related : SiteReport -> SiteReport -> Prop} {reports : List SiteReport}
    (holds : reports.Pairwise fun first second =>
      first.siteLine = second.siteLine -> related first second) :
    (byLine reports).Pairwise fun first second =>
      first.siteLine = second.siteLine -> related first second := by
  rw [List.pairwise_iff_forall_sublist] at holds ⊢
  intro first second inSorted sameLine
  let onLine (report : SiteReport) : Bool := report.siteLine == first.siteLine
  have ascending : (reports.filter onLine).Pairwise fun one other =>
      one.siteLine ≤ other.siteLine := by
    refine List.pairwise_of_forall_mem_list ?_
    intro one isOne other isOther
    rw [beq_iff_eq.mp (List.mem_filter.mp isOne).2, beq_iff_eq.mp (List.mem_filter.mp isOther).2]
    exact UInt32.le_refl _
  have kept := inSorted.filter onLine
  rw [filter_byLine ascending] at kept
  have both : [first, second].filter onLine = [first, second] := by
    simp [onLine, sameLine]
  rw [both] at kept
  exact holds (kept.trans List.filter_sublist) sameLine

end Scan

/-!
# Lines
-/

theorem Text.row_positionOf_mono (bytes : List UInt8) {first second : Nat} (le : first ≤ second) :
    (positionOf bytes first).row ≤ (positionOf bytes second).row :=
  (List.take_sublist_take_left le).count_le lineFeed

theorem Text.row_positionOf_le_count (bytes : List UInt8) (byte : Nat) :
    (positionOf bytes byte).row ≤ bytes.count lineFeed :=
  (List.take_sublist byte bytes).count_le lineFeed

namespace Scan

variable {document : Java.Document}

theorem siteLine_le_of_start_le
    (fits : document.text.toUTF8.toList.count Text.lineFeed + 1 < UInt32.size) (types : TypeSet)
    (builder : ReportBuilder) {first second : Origin document}
    (before : first.node.span.start ≤ second.node.span.start) :
    (first.report types builder).siteLine ≤ (second.report types builder).siteLine := by
  let bytes := document.text.toUTF8.toList
  have lineFits (byte : Nat) : (Text.positionOf bytes byte).row + 1 < UInt32.size :=
    Nat.lt_of_le_of_lt (Nat.succ_le_succ (Text.row_positionOf_le_count bytes byte)) fits
  have rows := Text.row_positionOf_mono bytes before
  exact (UInt32.ofNat_le_iff_le (lineFits _) (lineFits _)).mpr (Nat.succ_le_succ rows)

/-!
# The order of origins
-/

theorem map_invocation_sites (options : ScanOptions) (document : Java.Document) :
    (sites options document).map BinderSite.invocation =
      (chainStarts document.rootNode).filter fun start =>
        (BinderSite.atInvocation? options.acceptsBinder start).value.isSome := by
  rw [sites, BinderSite.value_inDocument, List.map_filterMap, ← List.filterMap_eq_filter]
  refine congrFun (congrArg List.filterMap (funext ?_)) _
  intro start
  cases found : (BinderSite.atInvocation? options.acceptsBinder start).value with
  | none => simp [Option.guard, found]
  | some site => simp [Option.guard, found, (BinderSite.value_atInvocation?.mp found).1]

theorem sites_sublist_preorder (options : ScanOptions) (document : Java.Document) :
    ((sites options document).map BinderSite.invocation).Sublist
      (preorder maxTreeDepth document.rootNode) := by
  rw [map_invocation_sites, chainStarts, collectAll_eq_filter]
  exact List.filter_sublist.trans List.filter_sublist

theorem scopes_sublist_preorder (options : ScanOptions) (document : Java.Document) :
    (scopes options document).Sublist (preorder maxTreeDepth document.rootNode) := by
  rw [scopes]
  split
  · rw [constructorScopes, collectAll_eq_filter]
    exact List.filter_sublist.trans (List.filter_sublist.trans List.filter_sublist)
  · exact List.nil_sublist _

theorem ascending_reports
    (fits : document.text.toUTF8.toList.count Text.lineFeed + 1 < UInt32.size) (types : TypeSet)
    (builder : ReportBuilder) (origins : List (Origin document))
    (inOrder : (origins.map Origin.node).Sublist (preorder maxTreeDepth document.rootNode)) :
    (origins.map (Origin.report types builder)).Pairwise fun first second =>
      first.siteLine ≤ second.siteLine := by
  have starts := (document.ordered.preorder_ascending maxTreeDepth).sublist inOrder
  rw [List.pairwise_map] at starts ⊢
  exact starts.imp fun before => siteLine_le_of_start_le fits types builder before

/-!
# Reports on sites and on classes
-/

def siteReports (options : ScanOptions) (types : TypeSet) (builder : ReportBuilder)
    (document : Java.Document) : List SiteReport :=
  (sites options document).map fun site => (Origin.atSite site).report types builder

def scopeReports (options : ScanOptions) (types : TypeSet) (builder : ReportBuilder)
    (document : Java.Document) : List SiteReport :=
  (scopes options document).map fun owner => (Origin.inScope owner).report types builder

theorem filter_siteKind {reports : List SiteReport} {kind wanted : SiteKind}
    (same : ∀ report ∈ reports, report.siteKind = kind) :
    reports.filter (·.siteKind == wanted) = if kind = wanted then reports else [] := by
  split
  · next isWanted =>
      refine List.filter_eq_self.mpr ?_
      intro report member
      exact beq_iff_eq.mpr ((same report member).trans isWanted)
  · next notWanted =>
      refine List.filter_eq_nil_iff.mpr ?_
      intro report member isWanted
      exact notWanted ((same report member).symm.trans (beq_iff_eq.mp isWanted))

section

variable (options : ScanOptions) (types : TypeSet) (builder : ReportBuilder)

theorem siteKind_of_mem_siteReports {report : SiteReport}
    (member : report ∈ siteReports options types builder document) : report.siteKind = .binder := by
  rcases List.mem_map.mp member with ⟨site, _, rfl⟩
  rfl

theorem siteKind_of_mem_scopeReports {report : SiteReport}
    (member : report ∈ scopeReports options types builder document) :
    report.siteKind = .constructorScope := by
  rcases List.mem_map.mp member with ⟨owner, _, rfl⟩
  rfl

theorem filter_binder_append :
    (siteReports options types builder document ++
        scopeReports options types builder document).filter (·.siteKind == .binder) =
      siteReports options types builder document := by
  rw [List.filter_append,
    filter_siteKind fun _ => siteKind_of_mem_siteReports options types builder,
    filter_siteKind fun _ => siteKind_of_mem_scopeReports options types builder]
  exact List.append_nil _

theorem filter_scope_append :
    (siteReports options types builder document ++
        scopeReports options types builder document).filter (·.siteKind == .constructorScope) =
      scopeReports options types builder document := by
  rw [List.filter_append,
    filter_siteKind fun _ => siteKind_of_mem_siteReports options types builder,
    filter_siteKind fun _ => siteKind_of_mem_scopeReports options types builder]
  exact List.nil_append _

/-- No report on a class stands in front of one on a site. -/
theorem sites_first_append :
    (siteReports options types builder document ++
        scopeReports options types builder document).Pairwise fun first second =>
      second.siteKind = .binder -> first.siteKind = .binder := by
  refine List.pairwise_append.mpr ⟨?_, ?_, ?_⟩
  · refine List.pairwise_of_forall_mem_list ?_
    intro first isFirst second _ _
    exact siteKind_of_mem_siteReports options types builder isFirst
  · refine List.pairwise_of_forall_mem_list ?_
    intro first _ second isSecond isBinder
    rw [siteKind_of_mem_scopeReports options types builder isSecond] at isBinder
    cases isBinder
  · intro first isFirst second _ _
    exact siteKind_of_mem_siteReports options types builder isFirst

theorem ascending_siteReports
    (fits : document.text.toUTF8.toList.count Text.lineFeed + 1 < UInt32.size) :
    (siteReports options types builder document).Pairwise fun first second =>
      first.siteLine ≤ second.siteLine := by
  have inOrder := sites_sublist_preorder options document
  have nodes : ((sites options document).map .atSite).map Origin.node =
      (sites options document).map BinderSite.invocation := List.map_map
  have ascending := ascending_reports fits types builder _ (nodes ▸ inOrder)
  rwa [List.map_map] at ascending

theorem ascending_scopeReports
    (fits : document.text.toUTF8.toList.count Text.lineFeed + 1 < UInt32.size) :
    (scopeReports options types builder document).Pairwise fun first second =>
      first.siteLine ≤ second.siteLine := by
  have inOrder := scopes_sublist_preorder options document
  have nodes : ((scopes options document).map .inScope).map Origin.node =
      scopes options document := List.map_map.trans (List.map_id _)
  have ascending := ascending_reports fits types builder _ (nodes.symm ▸ inOrder)
  rwa [List.map_map] at ascending

end

/-!
# Reports with and without those on classes
-/

variable {options : ScanOptions} (types : TypeSet) (builder : ReportBuilder)

theorem origins_of_not_scanning (scansNot : options.scanConstructors = false) :
    origins options document = (sites options document).map .atSite := by
  rw [origins, scopes, scansNot, if_neg Bool.false_ne_true, List.map_nil, List.append_nil]

theorem unboundedReports_of_not_scanning (scansNot : options.scanConstructors = false) :
    (unboundedReports options types builder document).value =
      siteReports options types builder document := by
  rw [unboundedReports, origins_of_not_scanning scansNot, scansNot]
  dsimp only
  rw [if_neg Bool.false_ne_true, List.map_map]
  rfl

section

variable (scans : options.scanConstructors = true)
include scans

theorem unboundedReports_of_scanning :
    (unboundedReports options types builder document).value =
      byLine (siteReports options types builder document ++
        scopeReports options types builder document) := by
  rw [unboundedReports]
  dsimp only
  rw [if_pos scans, origins, List.map_append, List.map_map, List.map_map]
  rfl

theorem ascending_unboundedReports :
    (unboundedReports options types builder document).value.Pairwise fun first second =>
      first.siteLine ≤ second.siteLine := by
  rw [unboundedReports_of_scanning types builder scans]
  exact ascending_byLine _

theorem sites_first_unboundedReports :
    (unboundedReports options types builder document).value.Pairwise fun first second =>
      first.siteLine = second.siteLine -> second.siteKind = .binder ->
        first.siteKind = .binder := by
  rw [unboundedReports_of_scanning types builder scans]
  apply pairwise_byLine
  apply (sites_first_append options types builder).imp
  intro first second sitesFirst _
  exact sitesFirst

theorem filter_unboundedReports {wanted : SiteReport -> Bool} {part : List SiteReport}
    (isPart : (siteReports options types builder document ++
      scopeReports options types builder document).filter wanted = part)
    (ascending : part.Pairwise fun first second => first.siteLine ≤ second.siteLine) :
    (unboundedReports options types builder document).value.filter wanted = part := by
  rw [← isPart] at ascending
  rw [unboundedReports_of_scanning types builder scans, filter_byLine ascending, isPart]

end

def scanning (options : ScanOptions) : ScanOptions :=
  { options with scanConstructors := true }

def notScanning (options : ScanOptions) : ScanOptions :=
  { options with scanConstructors := false }

/-- What the reports `all` of a file have beside the reports `atSites`, if classes are searched for
`all` only. -/
structure AddsScopes (options : ScanOptions) (types : TypeSet) (builder : ReportBuilder)
    (document : Java.Document) (all atSites : List SiteReport) : Prop where
  binders : all.filter (·.siteKind == .binder) = atSites
  ascending : all.Pairwise fun first second => first.siteLine ≤ second.siteLine
  sitesFirst : all.Pairwise fun first second => first.siteLine = second.siteLine ->
    second.siteKind = .binder -> first.siteKind = .binder
  scopes : all.filter (·.siteKind == .constructorScope) =
    scopeReports (scanning options) types builder document
  scopesInOrder : (Scan.scopes (scanning options) document).Sublist
    (preorder maxTreeDepth document.rootNode)

/-- The reports `atSites` are those on the sites, in the order of the text and of the lines. -/
structure OnSites (options : ScanOptions) (types : TypeSet) (builder : ReportBuilder)
    (document : Java.Document) (atSites : List SiteReport) : Prop where
  sites : atSites = siteReports options types builder document
  ascending : atSites.Pairwise fun first second => first.siteLine ≤ second.siteLine
  sitesInOrder : ((Scan.sites options document).map BinderSite.invocation).Sublist
    (preorder maxTreeDepth document.rootNode)

theorem onSites_of_not_scanning (options : ScanOptions)
    (fits : document.text.toUTF8.toList.count Text.lineFeed + 1 < UInt32.size) :
    OnSites options types builder document
      (unboundedReports (notScanning options) types builder document).value where
  sites := unboundedReports_of_not_scanning types builder rfl
  ascending := by
    rw [unboundedReports_of_not_scanning types builder rfl]
    exact ascending_siteReports options types builder fits
  sitesInOrder := sites_sublist_preorder options document

theorem addsScopes_of_scanning (options : ScanOptions)
    (fits : document.text.toUTF8.toList.count Text.lineFeed + 1 < UInt32.size) :
    AddsScopes options types builder document
      (unboundedReports (scanning options) types builder document).value
      (unboundedReports (notScanning options) types builder document).value where
  binders := by
    have areSites : (unboundedReports (notScanning options) types builder document).value =
        siteReports options types builder document :=
      unboundedReports_of_not_scanning types builder rfl
    rw [areSites]
    exact filter_unboundedReports types builder rfl
      (filter_binder_append (scanning options) types builder)
      (ascending_siteReports options types builder fits)
  ascending := ascending_unboundedReports types builder rfl
  sitesFirst := sites_first_unboundedReports types builder rfl
  scopes := filter_unboundedReports types builder rfl
    (filter_scope_append (scanning options) types builder)
    (ascending_scopeReports (scanning options) types builder fits)
  scopesInOrder := scopes_sublist_preorder (scanning options) document

/-!
# Files with and without reports on classes
-/

theorem fits_notScanning_iff {options : ScanOptions} {types : TypeSet} {builder : ReportBuilder} :
    Fits (notScanning options) types builder document ↔
      ∀ site ∈ sites options document, (Origin.atSite site).Fits types builder := by
  rw [Fits, origins_of_not_scanning rfl]
  exact List.forall_mem_map

theorem fits_scanning_iff {options : ScanOptions} {types : TypeSet} {builder : ReportBuilder} :
    Fits (scanning options) types builder document ↔
      Fits (notScanning options) types builder document ∧
        ∀ owner ∈ scopes (scanning options) document,
          (Origin.inScope owner).Fits types builder := by
  rw [fits_notScanning_iff, Fits, origins, List.forall_mem_append, List.forall_mem_map,
    List.forall_mem_map]
  rfl

/-- How the search in constructors bears on a file. -/
structure ScopesApart (parser : Java.Parser) (options : ScanOptions) (types : TypeSet)
    (source : SourceFile) (document : Java.Document) (builder : ReportBuilder) : Prop where
  /-- Without the search there is a report exactly if the contexts at the sites fit. -/
  sitesReturn : (∃ report, file parser (notScanning options) types source = .ok (.ok report)) ↔
    ∀ site ∈ sites options document, (Origin.atSite site).Fits types builder
  /-- With it there is one exactly if those of the classes fit too. -/
  allReturn : (∃ report, file parser (scanning options) types source = .ok (.ok report)) ↔
    (∃ report, file parser (notScanning options) types source = .ok (.ok report)) ∧
      ∀ owner ∈ scopes (scanning options) document, (Origin.inScope owner).Fits types builder
  onSites : ∀ atSites, file parser (notScanning options) types source = .ok (.ok atSites) ->
    OnSites options types builder document atSites.value.reports
  addsScopes : ∀ all atSites, file parser (scanning options) types source = .ok (.ok all) ->
    file parser (notScanning options) types source = .ok (.ok atSites) ->
      AddsScopes options types builder document all.value.reports atSites.value.reports

/-- Searching the constructors of classes leaves the reports on sites as they are, if there is a
report at all. Line numbers are words, so the text must not have more lines than there are words.
Then the reports are ordered by line with and without those on classes, the sites of a line come
before its classes, and each of the two groups is in the order of the text. -/
theorem scopes_leave_sites_alone (options : ScanOptions) (types : TypeSet) {parser : Java.Parser}
    {source : SourceFile} (isRead : IsRead parser source document)
    (fits : source.text.toUTF8.toList.count Text.lineFeed + 1 < UInt32.size) :
    ScopesApart parser options types source document
      (ReportBuilder.forFile source.path source.text options.context) := by
  have small : document.text.toUTF8.toList.count Text.lineFeed + 1 < UInt32.size := by
    rwa [parser.faithful isRead.parsed]
  constructor
  · rw [exists_file_iff isRead]
    exact fits_notScanning_iff
  · rw [exists_file_iff isRead, exists_file_iff isRead]
    exact fits_scanning_iff
  · intro atSites isFile
    rcases eq_unboundedFile isRead isFile with ⟨_, rfl⟩
    exact onSites_of_not_scanning types _ options small
  · intro all atSites isAll areAtSites
    rcases eq_unboundedFile isRead isAll with ⟨_, rfl⟩
    rcases eq_unboundedFile isRead areAtSites with ⟨_, rfl⟩
    exact addsScopes_of_scanning types _ options small

theorem scopes_leave_sites_alone_class_before_site :
    let types := TypeSet.ofList ["S"]
    let source : SourceFile :=
      { path := "A.java"
        text := "class A{A(){f(()->new S());}}class B{void g(){aBinder(()->new S());}}" }
    IsRead Java.reader source (Java.Document.parse source.text) ∧
      source.text.toUTF8.toList.count Text.lineFeed + 1 < UInt32.size ∧
      ∃ all atSites, file Java.reader (scanning .default) types source = .ok (.ok all) ∧
        file Java.reader (notScanning .default) types source = .ok (.ok atSites) ∧
        all.value.reports.filter (·.siteKind == .binder) = atSites.value.reports ∧
        all.value.reports.length = 2 ∧ atSites.value.reports.length = 1 := by
  intro types source
  have isRead : IsRead Java.reader source (Java.Document.parse source.text) :=
    ⟨by decide +kernel, rfl⟩
  have fits : source.text.toUTF8.toList.count Text.lineFeed + 1 < UInt32.size := by
    decide +kernel
  have apart := scopes_leave_sites_alone .default types isRead fits
  have sitesFit : ∀ site ∈ sites .default (Java.Document.parse source.text),
      (Origin.atSite site).Fits types (ReportBuilder.forFile source.path source.text {}) := by
    decide +kernel
  have scopesFit : ∀ owner ∈ scopes (scanning .default) (Java.Document.parse source.text),
      (Origin.inScope owner).Fits types (ReportBuilder.forFile source.path source.text {}) := by
    decide +kernel
  rcases apart.sitesReturn.mpr sitesFit with ⟨atSites, areAtSites⟩
  rcases apart.allReturn.mpr ⟨⟨atSites, areAtSites⟩, scopesFit⟩ with ⟨all, isAll⟩
  have adds := apart.addsScopes all atSites isAll areAtSites
  refine ⟨isRead, fits, all, atSites, isAll, areAtSites, adds.binders, ?_, ?_⟩
  · rw [(perm_reports_of_isRead isRead isAll).length_eq, List.length_map]
    decide +kernel
  · rw [(perm_reports_of_isRead isRead areAtSites).length_eq, List.length_map]
    decide +kernel

/-- The command of the class in the second line has no context, so the search in constructors takes
the report on the site in the first line with it. -/
theorem scopes_stop_sites :
    ¬ ∀ (parser : Java.Parser) (options : ScanOptions) (types : TypeSet) (source : SourceFile)
      (document : Java.Document), IsRead parser source document ->
      source.text.toUTF8.toList.count Text.lineFeed + 1 < UInt32.size ->
      ∀ atSites, file parser (notScanning options) types source = .ok (.ok atSites) ->
        ∃ all, file parser (scanning options) types source = .ok (.ok all) ∧
          all.value.reports.filter (·.siteKind == .binder) = atSites.value.reports := by
  intro undisturbed
  let types := TypeSet.ofList ["S"]
  let source : SourceFile :=
    { path := "A.java"
      text := "class B{void g(){aBinder(()->new S());}}\nclass A{A(){f(()->new S());}}" }
  let options : ScanOptions :=
    { ScanOptions.default with context := { linesAfter := wordSize - 1 } }
  let document := Java.Document.parse source.text
  have isRead : IsRead Java.reader source document := ⟨by decide +kernel, rfl⟩
  have sitesFit : FileFits (notScanning options) types source document := by decide +kernel
  have scopesExceed : ¬ FileFits (scanning options) types source document := by decide +kernel
  rcases undisturbed Java.reader options types source document isRead (by decide +kernel) _
    (file_of_fits isRead sitesFit) with ⟨all, isAll, _⟩
  rw [file_of_not_fits isRead scopesExceed] at isAll
  cases isAll

end Scan
end CommandWiring
