import CommandWiring.Proofs.Reports
import Mathlib.Data.List.Forall2

/-!
# Reports on many files

A file that is not analysed has an empty report and one warning, and every other file has its own
report, or it stops the run. A run over many files stops if it stops at one of them, and otherwise
it gives the reports on all of them in their order.
-/

namespace CommandWiring

/-!
# Steps that can fail
-/

section

variable {α β γ ε : Type} {elements : List α}

theorem mapM_eq_ok_iff {step : α -> Except ε β} {results : List β} :
    elements.mapM step = .ok results ↔
      List.Forall₂ (fun element result => step element = .ok result) elements results := by
  constructor
  · induction elements generalizing results with
    | nil =>
        intro done
        cases done
        exact .nil
    | cons first rest ih =>
        intro done
        rw [List.mapM_cons] at done
        cases isFirst : step first with
        | error error =>
            rw [isFirst] at done
            cases done
        | ok result =>
            cases isRest : rest.mapM step with
            | error error =>
                rw [isFirst, isRest] at done
                cases done
            | ok more =>
                rw [isFirst, isRest] at done
                cases done
                exact .cons isFirst (ih isRest)
  · intro each
    induction each with
    | nil => rfl
    | cons isFirst _ ih =>
        rw [List.mapM_cons, isFirst, ih]
        rfl

theorem exists_step_of_mem {step : α -> Except ε β} {results : List β} {result : β}
    (each : List.Forall₂ (fun element result => step element = .ok result) elements results)
    (member : result ∈ results) : ∃ element ∈ elements, step element = .ok result := by
  induction each with
  | nil => cases member
  | cons isFirst _ ih =>
      rcases List.mem_cons.mp member with rfl | inRest
      · exact ⟨_, List.mem_cons_self, isFirst⟩
      · rcases ih inRest with ⟨element, isElement, made⟩
        exact ⟨element, List.mem_cons_of_mem _ isElement, made⟩

theorem mapM_eq_overflow_iff {step : α -> Checked β} :
    elements.mapM step = .error .overflow ↔
      ∃ element ∈ elements, step element = .error .overflow := by
  constructor
  · intro stops
    induction elements with
    | nil => cases stops
    | cons first rest ih =>
        cases isFirst : step first with
        | error panic => exact ⟨first, List.mem_cons_self, panic.eq_overflow ▸ isFirst⟩
        | ok result =>
            cases isRest : rest.mapM step with
            | error panic =>
                rcases ih (panic.eq_overflow ▸ isRest) with ⟨element, member, alsoStops⟩
                exact ⟨element, List.mem_cons_of_mem first member, alsoStops⟩
            | ok more =>
                rw [List.mapM_cons, isFirst, isRest] at stops
                cases stops
  · rintro ⟨element, member, stops⟩
    exact mapM_eq_overflow member stops

theorem map_mapM {step : α -> Except ε β} {f : β -> γ} :
    (elements.mapM step).map (List.map f) = elements.mapM fun element => (step element).map f := by
  induction elements with
  | nil => rfl
  | cons first rest ih =>
      rw [List.mapM_cons, List.mapM_cons, ← ih]
      cases step first with
      | error error => rfl
      | ok result =>
          cases rest.mapM step with
          | error error => rfl
          | ok more => rfl

theorem mapM_congr_left {step other : α -> Except ε β}
    (same : ∀ element ∈ elements, step element = other element) :
    elements.mapM step = elements.mapM other := by
  induction elements with
  | nil => rfl
  | cons first rest ih =>
      rw [List.mapM_cons, List.mapM_cons, same first List.mem_cons_self,
        ih fun element member => same element (List.mem_cons_of_mem first member)]

end

namespace Logged

variable {α β ε : Type} {elements : List α}

theorem tryEach_eq_ok_iff {step : α -> Except ε (Logged β)} {outcome : Logged (List β)} :
    tryEach step elements = .ok outcome ↔
      ∃ results, List.Forall₂ (fun element result => step element = .ok result) elements results ∧
        outcome = { value := results.map Logged.value
                    warnings := results.flatMap Logged.warnings } := by
  simp only [← mapM_eq_ok_iff, tryEach]
  cases elements.mapM step with
  | error error =>
      constructor
      · intro stops
        cases stops
      · rintro ⟨results, stops, _⟩
        cases stops
  | ok results =>
      constructor
      · intro done
        exact ⟨results, rfl, (Except.ok.inj done).symm⟩
      · rintro ⟨others, same, rfl⟩
        rw [Except.ok.inj same]
        rfl

theorem tryEach_eq_overflow_iff {step : α -> Checked (Logged β)} :
    tryEach step elements = .error .overflow ↔
      ∃ element ∈ elements, step element = .error .overflow := by
  rw [← mapM_eq_overflow_iff, tryEach]
  cases elements.mapM step with
  | error panic => rw [panic.eq_overflow]; exact iff_of_true rfl rfl
  | ok results =>
      constructor
      · intro stops
        cases stops
      · intro stops
        cases stops

theorem forEach_map {γ : Type} {step : β -> Logged γ} {f : α -> β} {g : α -> Logged γ}
    (same : ∀ element ∈ elements, step (f element) = g element) :
    forEach step (elements.map f) = forEach g elements := by
  have results : (elements.map f).map step = elements.map g := by
    rw [List.map_map]
    exact List.map_congr_left same
  rw [forEach, forEach, results]

theorem map_value_tryEach {step : α -> Except ε (Logged β)} :
    (tryEach step elements).map Logged.value =
      elements.mapM fun element => (step element).map Logged.value := by
  rw [← map_mapM, tryEach]
  cases elements.mapM step with
  | error error => rfl
  | ok results => rfl

end Logged

namespace Scan

variable {parser : Java.Parser} {options : ScanOptions} {types : TypeSet} {source : SourceFile}
  {document : Java.Document}

/-!
# One file
-/

/-- The file is of a supported language, and the parser reads it. -/
def IsAnalysed (parser : Java.Parser) (source : SourceFile) : Prop :=
  ∃ document, IsRead parser source document

instance (parser : Java.Parser) (source : SourceFile) : Decidable (IsAnalysed parser source) :=
  if supported : Language.ofPath? source.path = some "java" then
    match parsed : parser.parse source.text with
    | .ok document => isTrue ⟨document, supported, parsed⟩
    | .error _ => isFalse fun ⟨_, isRead⟩ => nomatch parsed.symm.trans isRead.parsed
  else isFalse fun ⟨_, isRead⟩ => supported isRead.supported

/-- The file is analysed, and the context of something found in it does not fit. -/
def StopsAt (parser : Java.Parser) (options : ScanOptions) (types : TypeSet)
    (source : SourceFile) : Prop :=
  ∃ document, IsRead parser source document ∧ ¬ FileFits options types source document

theorem stopsAt_iff (isRead : IsRead parser source document) :
    StopsAt parser options types source ↔ ¬ FileFits options types source document := by
  constructor
  · rintro ⟨other, alsoRead, exceeds⟩
    rcases isRead.unique alsoRead with rfl
    exact exceeds
  · intro exceeds
    exact ⟨document, isRead, exceeds⟩

instance (parser : Java.Parser) (options : ScanOptions) (types : TypeSet) (source : SourceFile) :
    Decidable (StopsAt parser options types source) :=
  if supported : Language.ofPath? source.path = some "java" then
    match parsed : parser.parse source.text with
    | .ok document =>
        decidable_of_iff (¬ FileFits options types source document)
          (stopsAt_iff ⟨supported, parsed⟩).symm
    | .error _ => isFalse fun ⟨_, isRead, _⟩ => nomatch parsed.symm.trans isRead.parsed
  else isFalse fun ⟨_, isRead, _⟩ => supported isRead.supported

theorem fileOrEmpty_of_fits (isRead : IsRead parser source document)
    (fits : FileFits options types source document) :
    fileOrEmpty parser options types source =
      .ok (unboundedFile options types source document) := by
  rw [fileOrEmpty, file_of_fits isRead fits]
  rfl

theorem fileOrEmpty_of_not_fits (isRead : IsRead parser source document)
    (exceeds : ¬ FileFits options types source document) :
    fileOrEmpty parser options types source = .error .overflow := by
  rw [fileOrEmpty, file_of_not_fits isRead exceeds]
  rfl

theorem fileOrEmpty_of_not_analysed (options : ScanOptions) (types : TypeSet)
    (unread : ¬ IsAnalysed parser source) :
    ∃ cause, fileOrEmpty parser options types source =
      .ok (.warned (.extractionFailed source.path cause) (.empty source.path)) := by
  cases supported : Language.ofPath? source.path with
  | none =>
      refine ⟨(FileError.unsupported source.path).message, ?_⟩
      rw [fileOrEmpty, file, supported]
      rfl
  | some language =>
      rcases ofPath?_eq_some supported with rfl
      cases parsed : parser.parse source.text with
      | ok document => exact absurd ⟨document, supported, parsed⟩ unread
      | error failure =>
          refine ⟨(FileError.unparsed source.path failure).message, ?_⟩
          rw [fileOrEmpty, file, supported]
          dsimp only
          rw [parseFile, parsed]
          rfl

theorem fileOrEmpty_eq_overflow_iff :
    fileOrEmpty parser options types source = .error .overflow ↔
      StopsAt parser options types source := by
  by_cases analysed : IsAnalysed parser source
  · rcases analysed with ⟨document, isRead⟩
    rw [stopsAt_iff isRead]
    by_cases fits : FileFits options types source document
    · rw [fileOrEmpty_of_fits isRead fits]
      exact iff_of_false nofun (not_not_intro fits)
    · rw [fileOrEmpty_of_not_fits isRead fits]
      exact iff_of_true rfl fits
  · rcases fileOrEmpty_of_not_analysed options types analysed with ⟨cause, isEmpty⟩
    rw [isEmpty]
    refine iff_of_false nofun ?_
    rintro ⟨document, isRead, _⟩
    exact analysed ⟨document, isRead⟩

/-- A file that has a report is analysed and all contexts in it fit, or its report is empty. -/
theorem fileOrEmpty_cases {report : Logged FileReport}
    (made : fileOrEmpty parser options types source = .ok report) :
    (∃ document, IsRead parser source document ∧ FileFits options types source document ∧
        report = unboundedFile options types source document) ∨
      (¬ IsAnalysed parser source ∧ ∃ cause,
        report = .warned (.extractionFailed source.path cause) (.empty source.path)) := by
  by_cases analysed : IsAnalysed parser source
  · rcases analysed with ⟨document, isRead⟩
    by_cases fits : FileFits options types source document
    · rw [fileOrEmpty_of_fits isRead fits] at made
      exact .inl ⟨document, isRead, fits, (Except.ok.inj made).symm⟩
    · rw [fileOrEmpty_of_not_fits isRead fits] at made
      cases made
  · rcases fileOrEmpty_of_not_analysed options types analysed with ⟨cause, isEmpty⟩
    rw [isEmpty] at made
    exact .inr ⟨analysed, cause, (Except.ok.inj made).symm⟩

/-!
# Many files
-/

variable {sources : List SourceFile}

theorem files_eq_overflow_iff :
    files parser options types sources = .error .overflow ↔
      ∃ source ∈ sources, StopsAt parser options types source := by
  rw [files, Logged.tryEach_eq_overflow_iff]
  simp only [fileOrEmpty_eq_overflow_iff]

def plainReport (parser : Java.Parser) (options : ScanOptions) (types : TypeSet)
    (source : SourceFile) : Checked FileReport :=
  (fileOrEmpty parser options types source).map Logged.value

theorem plainReport_of_fits (isRead : IsRead parser source document)
    (fits : FileFits options types source document) :
    plainReport parser options types source =
      .ok (unboundedFile options types source document).value := by
  rw [plainReport, fileOrEmpty_of_fits isRead fits]
  rfl

theorem plainReport_of_not_fits (isRead : IsRead parser source document)
    (exceeds : ¬ FileFits options types source document) :
    plainReport parser options types source = .error .overflow := by
  rw [plainReport, fileOrEmpty_of_not_fits isRead exceeds]
  rfl

theorem plainReport_of_not_analysed (options : ScanOptions) (types : TypeSet)
    (unread : ¬ IsAnalysed parser source) :
    plainReport parser options types source = .ok (.empty source.path) := by
  rcases fileOrEmpty_of_not_analysed options types unread with ⟨cause, isEmpty⟩
  rw [plainReport, isEmpty]
  rfl

theorem plainReport_cases {report : FileReport}
    (made : plainReport parser options types source = .ok report) :
    (∃ document, IsRead parser source document ∧
        report = (unboundedFile options types source document).value) ∨
      (¬ IsAnalysed parser source ∧ report = .empty source.path) := by
  cases isReport : fileOrEmpty parser options types source with
  | error panic =>
      rw [plainReport, isReport] at made
      cases made
  | ok logged =>
      rw [plainReport, isReport] at made
      rcases Except.ok.inj made with rfl
      rcases fileOrEmpty_cases isReport with ⟨document, isRead, _, rfl⟩ | ⟨unread, _, rfl⟩
      · exact .inl ⟨document, isRead, rfl⟩
      · exact .inr ⟨unread, rfl⟩

theorem map_value_files (parser : Java.Parser) (options : ScanOptions) (types : TypeSet)
    (sources : List SourceFile) :
    (files parser options types sources).map Logged.value =
      sources.mapM (plainReport parser options types) := by
  rw [files, Logged.map_value_tryEach]
  rfl

end Scan
end CommandWiring
