import CommandWiring.Proofs.FileSystems
import CommandWiring.Proofs.RelativePaths
import CommandWiring.Workspace.Scan

/-!
# Paths below a root

A file is found by a path that begins with the root as it is spelled and goes on with the names that
lead from the root to the file. This path leads to the file, and seen from the root it is the path
of these names, unless one of them is no text.
-/

namespace CommandWiring
namespace Path

/-!
# Segments of a root
-/

theorem splitAt_joinSegments_ofList {segments : List (List Char)}
    (free : ∀ segment ∈ segments, '/' ∉ segment) (notEmpty : segments ≠ []) :
    Text.splitAt '/' (joinSegments (segments.map String.ofList)).toList = segments := by
  have same : String.toList ∘ String.ofList = id := funext fun _ => String.toList_ofList
  rw [toList_joinSegments, List.map_map, same, List.map_id,
    Text.splitAt_intercalate free notEmpty]

theorem innerComponents_joinSegments_ofList {segments : List (List Char)}
    (free : ∀ segment ∈ segments, '/' ∉ segment) :
    innerComponents (joinSegments (segments.map String.ofList)) =
      segments.filterMap written.ofSegment? := by
  by_cases isEmpty : segments = []
  · rw [isEmpty]
    rfl
  · change (Text.splitAt '/' _).filterMap _ = _
    rw [splitAt_joinSegments_ofList free isEmpty]

theorem lead?_joinSegments_ofList {segments : List (List Char)}
    (free : ∀ segment ∈ segments, '/' ∉ segment ∧ segment ≠ [])
    (notDot : segments.head? ≠ some ['.']) :
    written.lead? (joinSegments (segments.map String.ofList)).toList = none := by
  cases segments with
  | nil => rfl
  | cons first rest =>
      have split := splitAt_joinSegments_ofList (fun segment member => (free segment member).1)
        (List.cons_ne_nil first rest)
      refine Script.lead?_eq_none ?_ ?_
      · -- a slash in front would make the first segment empty
        intro rooted
        rcases List.head?_eq_some_iff.mp rooted with ⟨behind, isRooted⟩
        change _ = '/' :: behind at isRooted
        rw [isRooted, Text.splitAt_cons, if_pos rfl] at split
        exact (free first List.mem_cons_self).2 (List.cons.inj split).1.symm
      · change (Text.splitAt '/' _).head? ≠ some ['.']
        rw [split]
        exact notDot

theorem filterMap_ofSegment?_congr {segments : List (List Char)} {kept : List Char -> Bool}
    (dropped : ∀ segment, kept segment = false -> written.ofSegment? segment = none) :
    (segments.filter kept).filterMap written.ofSegment? =
      segments.filterMap written.ofSegment? := by
  rw [List.filterMap_filter]
  apply List.filterMap_congr
  intro segment _
  split
  · rfl
  · next isDropped => exact (dropped segment (Bool.eq_false_iff.mpr isDropped)).symm

theorem filterMap_dropWhile_dot (segments : List (List Char)) :
    (segments.dropWhile fun segment => segment == ['.']).filterMap written.ofSegment? =
      segments.filterMap written.ofSegment? := by
  induction segments with
  | nil => rfl
  | cons first rest ih =>
      rw [List.dropWhile_cons]
      split
      · next isDot =>
          have noComponent : written.ofSegment? first = none := by
            rw [beq_iff_eq.mp isDot]
            rfl
          rw [ih, List.filterMap_cons_none noComponent]
      · rfl

end Path

namespace Workspace

open CommandWiring.Path (Name joinSegments)

def segmentsOf (root : String) : List (List Char) :=
  (Text.splitAt '/' (root ++ "/").toList).filter fun segment => !segment.isEmpty

theorem of_mem_segmentsOf {root : String} {segment : List Char}
    (member : segment ∈ segmentsOf root) : '/' ∉ segment ∧ segment ≠ [] := by
  rcases List.mem_filter.mp member with ⟨isSegment, filled⟩
  refine ⟨Text.separator_notMem_of_mem_splitAt isSegment, ?_⟩
  rintro rfl
  cases filled

theorem filterMap_segmentsOf (root : String) :
    (segmentsOf root).filterMap Path.written.ofSegment? =
      Path.innerComponents (root ++ "/") := by
  apply Path.filterMap_ofSegment?_congr
  intro segment isEmpty
  rw [Bool.not_eq_false', List.isEmpty_iff] at isEmpty
  rw [isEmpty]
  rfl

/-- A root as it is spelled has the components that it has with a slash behind it, but for a dot in
front. -/
theorem components_spelledRoot (root : String) :
    Path.components (spelledRoot root) =
      (Path.components (root ++ "/")).filter (· ≠ .current) := by
  have inner : (Path.innerComponents (root ++ "/")).filter (· ≠ .current) =
      Path.innerComponents (root ++ "/") := by
    rw [List.filter_eq_self]
    intro component member
    exact decide_eq_true (Path.Script.ne_lead_of_mem_inner member).2
  change _ = ((Path.written.lead? _).toList ++ Path.innerComponents (root ++ "/")).filter _
  rw [List.filter_append, inner, ← filterMap_segmentsOf]
  by_cases rooted : (root ++ "/").toList.head? = some '/'
  · have isSpelled : spelledRoot root =
        "" ++ "/" ++ joinSegments ((segmentsOf root).map String.ofList) := by
      rw [spelledRoot, if_pos rooted]
      rfl
    rw [isSpelled, Path.components_slash, Path.Script.lead?_eq_root_iff.mpr rooted,
      Path.innerComponents_joinSegments_ofList fun _ member => (of_mem_segmentsOf member).1]
    rfl
  · let kept := (segmentsOf root).dropWhile fun segment => segment == ['.']
    have isSpelled : spelledRoot root = joinSegments (kept.map String.ofList) := by
      rw [spelledRoot, if_neg rooted]
      rfl
    have ofKept : ∀ segment ∈ kept, '/' ∉ segment ∧ segment ≠ [] := fun segment member =>
      of_mem_segmentsOf ((List.dropWhile_suffix _).subset member)
    have notDot : kept.head? ≠ some ['.'] := by
      intro isDot
      have isNot := List.head?_dropWhile_not (fun segment => segment == ['.']) (segmentsOf root)
      rw [show (segmentsOf root).dropWhile _ = kept from rfl, isDot] at isNot
      cases isNot
    have leadSkipped : ((Path.written.lead? (root ++ "/").toList).toList.filter
        (· ≠ .current) : List (Path.Component String)) = [] := by
      cases isLead : Path.written.lead? (root ++ "/").toList with
      | none => rfl
      | some lead =>
          rcases Path.Script.eq_lead_of_lead? isLead with rfl | rfl
          · exact absurd (Path.Script.lead?_eq_root_iff.mp isLead) rooted
          · rfl
    rw [isSpelled, leadSkipped, ← Path.filterMap_dropWhile_dot]
    change (Path.written.lead? _).toList ++ Path.innerComponents _ = _
    rw [Path.lead?_joinSegments_ofList ofKept notDot,
      Path.innerComponents_joinSegments_ofList fun segment member => (ofKept segment member).1]
    rfl

theorem components_ofText_spelledRoot (root : String) :
    (OsPath.ofText (spelledRoot root)).components =
      (OsPath.ofText (root ++ "/")).components.filter (· ≠ .current) := by
  have spelled := OsPath.writes_components (spelledRoot root)
  have given := OsPath.writes_components (root ++ "/")
  rw [components_spelledRoot] at spelled
  refine List.left_unique_forall₂' Path.Component.Writes.leftUnique spelled ?_
  refine List.rel_filter ?_ given
  intro component part writes
  cases writes <;> simp

/-!
# Paths below a root
-/

variable {system : FileSystem} {root : String} {base location : Location} {names : List Name}
  {texts : List String}

/-- The path that is found for the names below `root`. -/
def pathBelow (root : String) (names : List Name) : OsPath :=
  names.foldl OsPath.push (.ofText (spelledRoot root))

def shownBelow (root : String) (texts : List String) : String :=
  texts.foldl Path.join (spelledRoot root)

/-- What stands in front of the names in a path relative to `root`. -/
def leadOf (root : String) : List String :=
  if root = "" then ["/"] else []

def relativeBelow (root : String) (texts : List String) : String :=
  joinSegments (leadOf root ++ texts)

theorem foldl_push_ofText {start : String} (areTexts : names.mapM Name.text? = some texts) :
    names.foldl OsPath.push (.ofText start) = .ofText (texts.foldl Path.join start) := by
  have each := mapM_eq_some_iff.mp areTexts
  clear areTexts
  induction each generalizing start with
  | nil => rfl
  | @cons first text _ _ isFirst _ ih =>
      cases first with
      | broken bytes isBroken => cases isFirst
      | plain other isEntry =>
          rcases Option.some.inj isFirst with rfl
          rw [List.foldl_cons, OsPath.push_ofText, ih]
          rfl

theorem pathBelow_eq_ofText (areTexts : names.mapM Name.text? = some texts) :
    pathBelow root names = .ofText (shownBelow root texts) :=
  foldl_push_ofText areTexts

theorem resolve?_pathBelow (isBase : system.resolve? (.ofText (root ++ "/")) = some base)
    (notEmpty : names ≠ []) (isThere : (system.entry? (base ++ names)).isSome) :
    system.resolve? (pathBelow root names) = some (base ++ names) := by
  have someNames : names.map Path.Component.name ≠ [] := by simpa using notEmpty
  rw [pathBelow, FileSystem.resolve?_descend notEmpty, components_ofText_spelledRoot,
    FileSystem.follow?_without_current someNames, FileSystem.follow?_append,
    (FileSystem.resolve?_slash isBase).1, Option.bind_some, FileSystem.follow?_names isThere]

theorem components_relativeBelow (root : String)
    (areNames : ∀ text ∈ texts, Path.isEntryName text = true) :
    Path.components (relativeBelow root texts) =
      (leadOf root).map (fun _ => .root) ++ texts.map .name := by
  have areInner := Path.isInner_of_mem_names areNames
  rw [relativeBelow, leadOf]
  split_ifs with isEmpty
  · let top : Option (Path.Component String) := some .root
    have whole : Path.components (joinSegments
        ((top.toList ++ texts.map Path.Component.name).map Path.Component.text)) =
          top.toList ++ texts.map Path.Component.name :=
      Path.components_joinSegments_lead (fun _ same => .inl (Option.some.inj same).symm) areInner
    rw [List.map_append, Path.map_text_names] at whole
    exact whole
  · exact Path.components_joinSegments areNames

theorem relativeBelow_injective {others : List String}
    (areNames : ∀ text ∈ texts, Path.isEntryName text = true)
    (alsoNames : ∀ text ∈ others, Path.isEntryName text = true)
    (same : relativeBelow root texts = relativeBelow root others) : texts = others := by
  have components := congrArg Path.components same
  rw [components_relativeBelow root areNames, components_relativeBelow root alsoNames] at components
  exact List.map_injective_iff.mpr (fun _ _ => Path.Component.name.inj)
    (List.append_cancel_left components)

/-- What is found below a root is seen from the root by its names, if they are texts. -/
theorem relative_pathBelow (isBase : system.resolve? (.ofText (root ++ "/")) = some base)
    (notEmpty : names ≠ []) (isThere : (system.entry? (base ++ names)).isSome) :
    system.relative (pathBelow root names) (.ofText root) =
      match names.mapM Name.text? with
      | some texts => .ok (relativeBelow root texts)
      | none => .error .invalidName := by
  by_cases isEmpty : root = ""
  · have absent : system.resolve? (.ofText root) = none := by
      rw [isEmpty]
      exact if_pos (by decide +kernel)
    have isPath : (pathBelow root names).components =
        (OsPath.ofText root).components ++ (.root :: names.map .name) := by
      rw [pathBelow, OsPath.components_descend, isEmpty]
      rfl
    have both : ((.root :: names.map .name : List (Path.Component Name)).mapM
        Path.Component.text?) = (names.mapM Name.text?).map ("/" :: ·) := by
      rw [List.mapM_cons, Path.mapM_text?_names]
      cases names.mapM Name.text? with
      | none => rfl
      | some texts => rfl
    rw [FileSystem.relative, Path.relativeFrom_of_absent (.inr absent),
      Path.stripped_of_components isPath, both]
    cases names.mapM Name.text? with
    | none => rfl
    | some texts =>
        change Except.ok (joinSegments (["/"] ++ texts)) =
          Except.ok (joinSegments (leadOf root ++ texts))
        rw [leadOf, if_pos isEmpty]
  · rw [FileSystem.relative, Path.relativeFrom, resolve?_pathBelow isBase notEmpty isThere,
      FileSystem.resolve?_of_slash isEmpty isBase]
    dsimp only
    rw [Path.stripped_path]
    cases names.mapM Name.text? with
    | none => rfl
    | some texts =>
        change Except.ok (joinSegments ([] ++ texts)) =
          Except.ok (joinSegments (leadOf root ++ texts))
        rw [leadOf, if_neg isEmpty]

end Workspace
end CommandWiring
