import CommandWiring.Java.Reader
import CommandWiring.Proofs.Outcomes
import CommandWiring.Proofs.Reports

/-!
# Warnings

A search that misses gives one warning, and one that finds something gives none, however the
searches hand over to each other. So a file has one warning for each report without a command, and
one for each chain of calls that is too long to be followed.
-/

namespace CommandWiring

open SyntaxNode

/-- The file that a warning is about, if it is about a file as a whole. -/
def Warning.path? : Warning -> Option String
  | typesSkipped path _ => some path
  | extractionFailed path _ => some path
  | unreadableFile path _ => some path
  | _ => none

namespace Search

/-!
# Searches
-/

/-- A search ends with something and without a warning, or it misses and gives one warning, which is
about a part of a file. -/
inductive Concludes {N : Type} : Logged (Outcome N) -> Prop
  | found {outcome : Outcome N} (isFound : outcome.isFound = true) : Concludes (pure outcome)
  | missed {warning : Warning} (reason : MissReason) (inFile : warning.path? = none) :
      Concludes (Search.missed warning reason)

theorem Concludes.path?_eq_none {N : Type} {result : Logged (Outcome N)}
    (concludes : Concludes result) : ∀ warning ∈ result.warnings, warning.path? = none := by
  intro warning member
  cases concludes with
  | found _ => cases member
  | missed reason inFile =>
      rw [List.mem_singleton.mp member]
      exact inFile

section

variable {N : Type} [SyntaxNode N]

theorem concludes_inLambda (types : TypeSet) (lambda : N) : Concludes (inLambda types lambda) := by
  rw [inLambda]
  split
  · exact .found rfl
  · exact .missed _ rfl

theorem concludes_inVariable (types : TypeSet) (reference : N) :
    Concludes (inVariable types reference) := by
  rw [inVariable]
  split
  · exact .missed _ rfl
  · split
    · exact concludes_inLambda types _
    · exact .missed _ rfl

theorem concludes_inMethodReference (types : TypeSet) (reference : N) :
    Concludes (inMethodReference types reference) := by
  rw [inMethodReference]
  split
  · exact .found rfl
  · exact .missed _ rfl

theorem concludes_inSupplier (types : TypeSet) (supplier : N) :
    Concludes (inSupplier types supplier) := by
  rw [inSupplier]
  split
  · exact concludes_inLambda types supplier
  · exact concludes_inVariable types supplier
  · exact concludes_inMethodReference types supplier
  · exact .missed _ rfl

theorem concludes_inAnonymousBinder (invocation : N) :
    Concludes (inAnonymousBinder invocation) := by
  rw [inAnonymousBinder]
  split
  · exact .found rfl
  · exact .missed _ rfl

theorem concludes_inInvocation (types : TypeSet) (invocation : N) :
    Concludes (inInvocation types invocation) := by
  rw [inInvocation]
  split
  · exact .missed _ rfl
  · split
    · exact concludes_inAnonymousBinder invocation
    · split
      · exact concludes_inSupplier types _
      · exact .missed _ rfl

theorem concludes_inClass [DecidableEq N] (types : TypeSet) (owner : N) :
    Concludes (inClass types owner) := by
  rw [inClass]
  split
  · exact concludes_inLambda types _
  · exact .missed _ rfl
  · exact .missed _ rfl

end

end Search

/-!
# Origins
-/

namespace Origin

variable {document : Java.Document}

theorem concludes_search (types : TypeSet) (origin : Origin document) :
    Search.Concludes (origin.search types) := by
  cases origin with
  | atSite site => exact Search.concludes_inInvocation types site.invocation
  | inScope owner => exact Search.concludes_inClass types owner

end Origin

/-!
# Files
-/

theorem Chain.Follows.descends {N : Type} [SyntaxNode N] {upper lower : N} {steps : Nat}
    (follows : Chain.Follows upper steps lower) : Descends upper steps lower := by
  induction follows with
  | here => exact .here
  | @next steps upper middle lower first _ _ ih =>
      have isChild : middle ∈ children upper := List.mem_of_mem_head? first
      rw [Nat.add_comm]
      exact (Descends.of_mem_children isChild).trans ih

namespace Scan

variable {document : Java.Document}

variable {options : ScanOptions} {types : TypeSet}

theorem path?_of_mem_warnings {builder : ReportBuilder} {warning : Warning}
    (member : warning ∈ (unboundedReports options types builder document).warnings) :
    warning.path? = none := by
  rw [unboundedReports, BinderSite.warnings_inDocument, List.mem_append] at member
  rcases member with ofChain | ofSearch
  · rcases List.mem_map.mp ofChain with ⟨start, _, rfl⟩
    rfl
  · rcases List.mem_flatMap.mp ofSearch with ⟨origin, _, given⟩
    exact (origin.concludes_search types).path?_eq_none warning given

end Scan
end CommandWiring
