import CommandWiring.Java.Reader
import CommandWiring.Proofs.AlikeDocuments
import CommandWiring.Proofs.Outcomes
import CommandWiring.Proofs.ReportOrder

/-!
# Classes without a binder site

A class is searched by itself if no binder site begins below it and a lambda stands in a constructor
of its own. The spans of the text decide which sites are in a class, and they say the same as the
way down from the class does.
-/

namespace CommandWiring

open SyntaxNode

namespace Scan

variable {document : Java.Document} {options : ScanOptions}

/-- A class below which no site begins, with a lambda in a constructor of its own. -/
structure IsBinderFree (options : ScanOptions) (owner : document.Node) : Prop where
  reached : ∃ depth, Descends document.rootNode depth owner
  isClass : kind owner = .classDeclaration
  noSite : ∀ site ∈ sites options document, ¬ ∃ steps, Descends owner steps site.invocation
  hasLambda : ∃ steps lambda, Descends owner steps lambda ∧ kind lambda = .lambda ∧
    inConstructorOf owner lambda = true

theorem hasSite_eq_false_iff {depth : Nat} {owner : document.Node}
    (reached : Descends document.rootNode depth owner) (isClass : kind owner = .classDeclaration) :
    hasSite (sites options document) owner = false ↔
      ∀ site ∈ sites options document, ¬ ∃ steps, Descends owner steps site.invocation := by
  rw [hasSite, List.any_eq_false]
  refine forall₂_congr ?_
  intro site member
  rcases of_mem_sites member with ⟨⟨other, callReached⟩, isCall⟩
  rw [Java.Document.contains_iff_descends reached callReached isClass isCall]

theorem hasConstructorLambda_iff (height : HeightAtMost maxTreeDepth document.rootNode)
    {depth : Nat} {owner : document.Node} (reached : Descends document.rootNode depth owner) :
    hasConstructorLambda owner = true ↔
      ∃ steps lambda, Descends owner steps lambda ∧ kind lambda = .lambda ∧
        inConstructorOf owner lambda = true := by
  have ownerHeight := (height.of_descends reached).mono (Nat.sub_le _ _)
  rw [hasConstructorLambda, isSome_findFirst?_iff ownerHeight]
  simp only [Bool.and_eq_true, ofKind_iff]

theorem mem_scopes_iff (scans : options.scanConstructors = true)
    (height : HeightAtMost maxTreeDepth document.rootNode) {owner : document.Node} :
    owner ∈ scopes options document ↔ IsBinderFree options owner := by
  rw [scopes, if_pos scans, constructorScopes, List.mem_filter, List.mem_filter,
    mem_collectAll_iff height, ofKind_iff, Bool.not_eq_true']
  constructor
  · rintro ⟨⟨⟨⟨depth, reached⟩, isClass⟩, noSite⟩, hasLambda⟩
    exact ⟨⟨depth, reached⟩, isClass, (hasSite_eq_false_iff reached isClass).mp noSite,
      (hasConstructorLambda_iff height reached).mp hasLambda⟩
  · rintro ⟨⟨depth, reached⟩, isClass, noSite, hasLambda⟩
    exact ⟨⟨⟨⟨depth, reached⟩, isClass⟩, (hasSite_eq_false_iff reached isClass).mpr noSite⟩,
      (hasConstructorLambda_iff height reached).mpr hasLambda⟩

theorem exists_name_of_isClass {owner : document.Node} (isClass : kind owner = .classDeclaration) :
    ∃ name, name? owner = some name := by
  have isA := owner.place.isA_of_kind.2.2 isClass
  rcases Java.Place.name_of_declaresType document.isUnit_root isA rfl with ⟨place, isName⟩
  exact ⟨document.textOf place.focus.span, Option.map_eq_some_iff.mpr ⟨place, isName, rfl⟩⟩

theorem line_name_report_inScope (types : TypeSet) (builder : ReportBuilder)
    {owner : document.Node} (isClass : kind owner = .classDeclaration) :
    (((Origin.inScope owner).report types builder).siteLine,
      some ((Origin.inScope owner).report types builder).siteName) =
      (UInt32.ofNat (BinderSite.lineOf owner), name? owner) := by
  rcases exists_name_of_isClass isClass with ⟨name, isName⟩
  change (UInt32.ofNat (BinderSite.lineOf owner), some ((name? owner).getD "")) = _
  rw [isName, Option.getD_some]

theorem perm_scopeReports {parser : Java.Parser} {types : TypeSet} {source : SourceFile}
    (isRead : IsRead parser source document) {report : Logged FileReport}
    (isReport : file parser options types source = .ok (.ok report)) :
    (report.value.reports.filter (·.siteKind == .constructorScope)).Perm
      (scopeReports options types
        (ReportBuilder.forFile source.path source.text options.context) document) := by
  have listed := perm_reports_of_isRead isRead isReport
  rw [origins, List.map_append, List.map_map, List.map_map] at listed
  have inScopes := listed.filter (·.siteKind == .constructorScope)
  rwa [← filter_scope_append options types]

/-- The reports on classes among `reports` are one for each class without a binder site, at the line
where the class begins and with its name. -/
structure CoversBinderFree (options : ScanOptions) (document : Java.Document)
    (reports : List SiteReport) (owners : List document.Node) : Prop where
  once : owners.Nodup
  binderFree : ∀ owner, owner ∈ owners ↔ IsBinderFree options owner
  reported : ((reports.filter (·.siteKind == .constructorScope)).map fun found =>
      (found.siteLine, some found.siteName)).Perm
    (owners.map fun owner => (UInt32.ofNat (BinderSite.lineOf owner), name? owner))

theorem coversBinderFree_of_file (types : TypeSet) {parser : Java.Parser} {source : SourceFile}
    (isRead : IsRead parser source document) (scans : options.scanConstructors = true)
    (height : HeightAtMost maxTreeDepth document.rootNode) {report : Logged FileReport}
    (isReport : file parser options types source = .ok (.ok report)) :
    CoversBinderFree options document report.value.reports (scopes options document) where
  once := nodup_scopes options document
  binderFree := fun owner => mem_scopes_iff scans height
  reported := by
    let builder := ReportBuilder.forFile source.path source.text options.context
    have listed := (perm_scopeReports isRead isReport).map fun found =>
      (found.siteLine, some found.siteName)
    have told : (scopeReports options types builder document).map
        (fun found => (found.siteLine, some found.siteName)) =
        (scopes options document).map fun owner =>
          (UInt32.ofNat (BinderSite.lineOf owner), name? owner) := by
      rw [scopeReports, List.map_map]
      refine List.map_congr_left ?_
      intro owner member
      exact line_name_report_inScope types builder (of_mem_scopes member).2.1
    exact listed.trans (.of_eq told)

/-- The reports on classes of a file are one for each class without a binder site. There are reports
exactly if the contexts of all that is found fit. -/
theorem scope_reports_cover_binder_free_classes (options : ScanOptions) (types : TypeSet)
    {parser : Java.Parser} {source : SourceFile} (isRead : IsRead parser source document)
    (scans : options.scanConstructors = true)
    (height : HeightAtMost maxTreeDepth document.rootNode) :
    ((∃ report, file parser options types source = .ok (.ok report)) ↔
        FileFits options types source document) ∧
      ∀ report, file parser options types source = .ok (.ok report) ->
        ∃ owners, CoversBinderFree options document report.value.reports owners := by
  refine ⟨exists_file_iff isRead, ?_⟩
  intro report isReport
  exact ⟨_, coversBinderFree_of_file types isRead scans height isReport⟩

/-- Of the two classes `A` is reported and `B` is not, which has a binder site. -/
theorem scope_reports_cover_binder_free_classes_two_classes :
    let types := TypeSet.ofList ["S"]
    let options := { ScanOptions.default with scanConstructors := true }
    let source : SourceFile :=
      { path := "A.java"
        text := "class A{A(){f(()->new S());}}\nclass B{B(){aBinder(()->new S());}}" }
    let document := Java.Document.parse source.text
    IsRead Java.reader source document ∧ HeightAtMost maxTreeDepth document.rootNode ∧
      ∃ report, file Java.reader options types source = .ok (.ok report) ∧
        (report.value.reports.filter (·.siteKind == .constructorScope)).map (fun found =>
          (found.siteLine, some found.siteName)) = [(1, some "A")] := by
  intro types options source document
  have isRead : IsRead Java.reader source document := ⟨by decide +kernel, rfl⟩
  have low : HeightAtMost 12 document.rootNode :=
    heightAtMost_of_level_eq_nil (List.isEmpty_iff.mp (by decide +kernel))
  have height : HeightAtMost maxTreeDepth document.rootNode := low.mono (by decide)
  rcases scope_reports_cover_binder_free_classes options types isRead rfl height with
    ⟨returns, covers⟩
  rcases returns.mpr (by decide +kernel) with ⟨report, isReport⟩
  rcases covers report isReport with ⟨owners, covered⟩
  refine ⟨isRead, height, report, isReport, ?_⟩
  have same : owners.Perm (scopes options document) := by
    refine (List.perm_ext_iff_of_nodup covered.once (nodup_scopes _ _)).mpr ?_
    intro owner
    rw [covered.binderFree, mem_scopes_iff rfl height]
  have told : (scopes options document).map (fun owner =>
      (UInt32.ofNat (BinderSite.lineOf owner), name? owner)) = [(1, some "A")] := by
    decide +kernel
  exact List.perm_singleton.mp (told ▸ covered.reported.trans (same.map _))

/-- The command in the constructor of the class has no context, and so the class has no report. -/
theorem binder_free_class_without_report :
    ¬ ∀ (parser : Java.Parser) (options : ScanOptions) (types : TypeSet) (source : SourceFile)
      (document : Java.Document), IsRead parser source document ->
      options.scanConstructors = true -> HeightAtMost maxTreeDepth document.rootNode ->
        ∃ report, file parser options types source = .ok (.ok report) ∧
          ∃ owners, CoversBinderFree options document report.value.reports owners := by
  intro covered
  let types := TypeSet.ofList ["S"]
  let options : ScanOptions :=
    { ScanOptions.default with context := { linesAfter := wordSize - 1 } }
  let source : SourceFile := { path := "A.java", text := "\nclass A{A(){f(()->new S());}}" }
  let document := Java.Document.parse source.text
  have isRead : IsRead Java.reader source document := ⟨by decide +kernel, rfl⟩
  have low : HeightAtMost 12 document.rootNode :=
    heightAtMost_of_level_eq_nil (List.isEmpty_iff.mp (by decide +kernel))
  rcases covered Java.reader options types source document isRead rfl (low.mono (by decide)) with
    ⟨report, isReport, _⟩
  have exceeds : ¬ FileFits options types source document := by decide +kernel
  rw [file_of_not_fits isRead exceeds] at isReport
  cases isReport

end Scan
end CommandWiring
