import CommandWiring.Proofs.FileNames
import CommandWiring.Workspace.Basic
import Mathlib.Logic.Relation

/-!
# Relative paths

What is left of a path behind the components of a root leads, joined to the root, through the
components of the path again. So a relative path tells of what it is the relative path, as far as
components tell it: up to repeated slashes, slashes at the end and dots between slashes.
-/

namespace CommandWiring
namespace Path

open Text (splitAt splitAt_eq_splitOn)

/-!
# Only the empty path has no components
-/

namespace Script

variable {α N : Type} [DecidableEq α] {script : Script α N}

/-- Every segment that is not made of dots is a name. -/
def Total (script : Script α N) : Prop :=
  ∀ segment, script.slash ∉ segment -> segment ≠ [] -> segment ≠ [script.dot] ->
    segment ≠ [script.dot, script.dot] -> (script.name? segment).isSome

theorem Total.exists_component (total : script.Total) {segment : List α}
    (free : script.slash ∉ segment) (notNil : segment ≠ []) (notDot : segment ≠ [script.dot]) :
    ∃ component, script.ofSegment? segment = some component := by
  by_cases isDots : segment = [script.dot, script.dot]
  · exact ⟨.parent, isDots ▸ ofSegment?_dots⟩
  · rcases Option.isSome_iff_exists.mp (total segment free notNil notDot isDots) with ⟨name, isName⟩
    refine ⟨.name name, ?_⟩
    rw [ofSegment?_of_ne notNil notDot isDots, isName]
    rfl

theorem Total.components_ne_nil (total : script.Total) {path : List α} (notEmpty : path ≠ []) :
    script.components path ≠ [] := by
  rcases List.exists_cons_of_ne_nil notEmpty with ⟨first, others, rfl⟩
  by_cases isSlash : first = script.slash
  · have rooted : (first :: others).head? = some script.slash := congrArg some isSlash
    rw [components, lead?_eq_root_iff.mpr rooted]
    exact List.cons_ne_nil _ _
  · have notRooted : (first :: others).head? ≠ some script.slash := by simpa using isSlash
    rcases List.exists_cons_of_ne_nil (Text.splitAt_ne_nil script.slash others) with
      ⟨segment, more, areOthers⟩
    have segments : splitAt script.slash (first :: others) = (first :: segment) :: more := by
      rw [Text.splitAt_cons, if_neg isSlash, areOthers, List.modifyHead_cons]
    by_cases isDot : first :: segment = [script.dot]
    · rw [components, lead?_of_dot notRooted (by rw [segments, isDot]; rfl)]
      exact List.cons_ne_nil _ _
    · have free : script.slash ∉ first :: segment :=
        Text.separator_notMem_of_mem_splitAt (segments ▸ List.mem_cons_self)
      rcases total.exists_component free (List.cons_ne_nil _ _) isDot with ⟨component, counts⟩
      rw [components, innerComponents, segments, List.filterMap_cons_some counts]
      exact List.append_ne_nil_of_right_ne_nil _ (List.cons_ne_nil _ _)

theorem Total.mem_inner_of_components_eq (total : script.Total) {path root : List α}
    {rest : List (Component N)} {component : Component N} (notEmpty : root ≠ [])
    (isPath : script.components path = script.components root ++ rest)
    (member : component ∈ rest) : component ∈ script.innerComponents path := by
  have inTail : component ∈ (script.components path).tail := by
    rw [isPath, List.tail_append_of_ne_nil (total.components_ne_nil notEmpty)]
    exact List.mem_append_right _ member
  rw [components] at inTail
  cases isLead : script.lead? path with
  | none =>
      rw [isLead] at inTail
      exact List.mem_of_mem_tail inTail
  | some lead =>
      rw [isLead] at inTail
      exact inTail

end Script

theorem total_written : written.Total :=
  fun _ _ _ _ _ => rfl

theorem total_inBytes : inBytes.Total := by
  intro segment free notNil notDot notDots
  change (Name.ofBytes? segment).isSome
  rw [Name.ofBytes?]
  cases isText : Path.ofBytes? segment with
  | none =>
      have isBroken : isBrokenName segment = true := by
        have free : segment.contains slash = false :=
          Bool.eq_false_iff.mpr fun contained => free (List.contains_iff_mem.mp contained)
        rw [isBrokenName, isText, free]
        rfl
      simp [isBroken]
  | some text =>
      have isBytes : Text.bytes text = segment := Text.bytes_of_ofBytes? isText
      have slashFree : '/' ∉ text.toList := by
        rw [← Text.slash_mem_bytes_iff, isBytes]
        exact free
      have apart {other : List Char} (differs : Text.bytes (String.ofList other) ≠ segment) :
          text.toList ≠ other := by
        intro same
        rw [← same, String.ofList_toList] at differs
        exact differs isBytes
      have isNil : Text.bytes (String.ofList []) = [] := by decide +kernel
      have isDot : Text.bytes (String.ofList ['.']) = [dot] := by decide +kernel
      have isDots : Text.bytes (String.ofList ['.', '.']) = [dot, dot] := by decide +kernel
      have isEntry := isEntryName_of_segment slashFree (apart (isNil ▸ notNil.symm))
        (apart (isDot ▸ notDot.symm)) (apart (isDots ▸ notDots.symm))
      rw [String.ofList_toList] at isEntry
      dsimp only
      rw [Name.ofText?_eq_plain isEntry]
      rfl

variable {path root text : String} {rest : List (Component String)} {component : Component String}

/-!
# Behind the first component
-/

theorem text_of_ofSegment? {segment : List Char}
    (counts : written.ofSegment? segment = some component) : component.text.toList = segment := by
  rw [Script.ofSegment?] at counts
  split_ifs at counts with skipped isParent
  · rcases Option.some.inj counts with rfl
    rw [isParent]
    rfl
  · rcases Option.some.inj counts with rfl
    exact String.toList_ofList

theorem isInner_of_mem (member : component ∈ innerComponents text) : component.IsInner := by
  rcases List.mem_filterMap.mp member with ⟨segment, isSegment, counts⟩
  have isText := text_of_ofSegment? counts
  constructor
  · rw [isText]
    exact Text.separator_notMem_of_mem_splitAt isSegment
  · rw [isText]
    exact counts

theorem isInner_of_mem_rest (notEmpty : root ≠ "")
    (isPath : components path = components root ++ rest) :
    ∀ component ∈ rest, component.IsInner := by
  intro component member
  exact isInner_of_mem (total_written.mem_inner_of_components_eq
    (fun isNil => notEmpty (String.toList_eq_nil_iff.mp isNil)) isPath member)

/-!
# Slashes
-/

theorem innerComponents_slash (before after : String) :
    innerComponents (before ++ "/" ++ after) = innerComponents before ++ innerComponents after := by
  rw [innerComponents, toList_append_slash]
  exact Script.innerComponents_append_slash written _ _

/-!
# Spellings
-/

/-- The path `second` is `first` with one slash more beside a slash or at the end, or with one dot
more between slashes. -/
inductive Loosens : String -> String -> Prop where
  | slash (before after : String) : Loosens (before ++ "/" ++ after) (before ++ "//" ++ after)
  | trailing (path : String) : path ≠ "" -> Loosens path (path ++ "/")
  | dot (before after : String) : Loosens (before ++ "/" ++ after) (before ++ "/./" ++ after)

/-- Two paths differ at most in repeated slashes, slashes at the end and dots between slashes. -/
abbrev SpelledAlike : String -> String -> Prop :=
  Relation.EqvGen Loosens

theorem Loosens.components_eq {first second : String} (loosens : Loosens first second) :
    components first = components second := by
  cases loosens with
  | slash before after =>
      have whole : before ++ "//" ++ after = before ++ "/" ++ ("" ++ "/" ++ after) := by
        rw [String.append_assoc, String.append_assoc, String.append_assoc]
        rfl
      rw [whole, components_slash, components_slash, innerComponents_slash]
      rfl
  | trailing path notEmpty => exact (components_append_slash_nil notEmpty).symm
  | dot before after =>
      have whole : before ++ "/./" ++ after = before ++ "/" ++ ("." ++ "/" ++ after) := by
        rw [String.append_assoc, String.append_assoc, String.append_assoc]
        rfl
      rw [whole, components_slash, components_slash, innerComponents_slash]
      rfl

theorem SpelledAlike.components_eq {first second : String} (alike : SpelledAlike first second) :
    components first = components second := by
  induction alike with
  | rel _ _ loosens => exact loosens.components_eq
  | refl _ => rfl
  | symm _ _ _ ih => exact ih.symm
  | trans _ _ _ _ _ ihFirst ihSecond => exact ihFirst.trans ihSecond

/-!
# Joining
-/

theorem join_empty (path : String) : join "" path = path := by
  rw [join]
  split
  · rfl
  · rw [if_pos (Or.inl rfl), String.empty_append]

theorem components_join (notEmpty : root ≠ "") (notRooted : path.toList.head? ≠ some '/') :
    components (join root path) = components root ++ innerComponents path := by
  rw [join, if_neg notRooted]
  by_cases endsInSlash : root.toList.getLast? = some '/'
  · rw [if_pos (Or.inr endsInSlash)]
    rcases List.getLast?_eq_some_iff.mp endsInSlash with ⟨front, chars⟩
    have isRoot : root = String.ofList front ++ "/" := by
      rw [← String.toList_inj, chars, String.toList_append, String.toList_ofList]
      rfl
    rw [isRoot]
    exact components_slash _ _
  · rw [if_neg (not_or.mpr ⟨notEmpty, endsInSlash⟩)]
    exact components_append_slash notEmpty path

/-!
# What is left behind a root
-/

theorem below?_eq_some_iff {N : Type} [DecidableEq N] {first second rest : List (Component N)} :
    below? first second = some rest ↔ second = first ++ rest := by
  constructor
  · intro isBelow
    induction first generalizing second with
    | nil => exact Option.some.inj isBelow
    | cons component first ih =>
        cases second with
        | nil => cases isBelow
        | cons other second =>
            rw [below?] at isBelow
            split at isBelow
            · next same => rw [same, ih isBelow, List.cons_append]
            · cases isBelow
  · rintro rfl
    exact below?_append first rest

theorem relative_eq_ok_iff {text : String} :
    relative path root = .ok text ↔ ∃ rest, components path = components root ++ rest ∧
      text = joinSegments (rest.map Component.text) := by
  rw [relative]
  cases isBelow : below? (components root) (components path) with
  | none =>
      constructor
      · intro isOk
        cases isOk
      · rintro ⟨rest, isPath, _⟩
        rw [below?_eq_some_iff.mpr isPath] at isBelow
        cases isBelow
  | some rest =>
      have isPath := below?_eq_some_iff.mp isBelow
      constructor
      · intro isOk
        exact ⟨rest, isPath, (Except.ok.inj isOk).symm⟩
      · rintro ⟨other, isOther, rfl⟩
        rcases List.append_cancel_left (isPath.symm.trans isOther) with rfl
        rfl

theorem relative_eq_error_iff :
    relative path root = .error { path := path, root := root } ↔
      ¬ components root <+: components path := by
  rw [relative]
  cases isBelow : below? (components root) (components path) with
  | none =>
      constructor
      · intro _ isFront
        rcases isFront with ⟨rest, isPath⟩
        rw [below?_eq_some_iff.mpr isPath.symm] at isBelow
        cases isBelow
      · intro _
        rfl
  | some rest =>
      have isPath := below?_eq_some_iff.mp isBelow
      constructor
      · intro isError
        cases isError
      · intro notFront
        exact absurd ⟨rest, isPath.symm⟩ notFront

theorem components_joinSegments_lead {lead : Option (Component String)}
    {inner : List (Component String)}
    (isLead : ∀ component ∈ lead, component = .root ∨ component = .current)
    (areInner : ∀ component ∈ inner, component.IsInner) :
    components (joinSegments ((lead.toList ++ inner).map Component.text)) =
      lead.toList ++ inner := by
  cases lead with
  | none => exact components_joinSegments_text areInner
  | some first =>
      have isAlone := isLead first rfl
      rw [Option.toList_some, List.singleton_append, List.map_cons]
      cases inner with
      | nil => rcases isAlone with rfl | rfl <;> rfl
      | cons second more =>
          have parts : joinSegments (first.text :: (second :: more).map Component.text) =
              first.text ++ "/" ++ joinSegments ((second :: more).map Component.text) := by
            rw [joinSegments, List.map_cons, String.intercalate_cons_cons]
            rfl
          have isOne : first.text ≠ "" ∧ components first.text = [first] := by
            rcases isAlone with rfl | rfl <;> exact ⟨by decide, rfl⟩
          rw [parts, components_append_slash isOne.1, isOne.2,
            innerComponents_joinSegments_text areInner]
          rfl

theorem components_joinSegments_components (path : String) :
    components (joinSegments ((components path).map Component.text)) = components path :=
  components_joinSegments_lead (fun _ isLead => Script.eq_lead_of_lead? isLead)
    (fun _ member => isInner_of_mem member)

theorem components_join_relative {text : String} (isRelative : relative path root = .ok text) :
    components (join root text) = components path := by
  rcases relative_eq_ok_iff.mp isRelative with ⟨rest, isPath, rfl⟩
  by_cases isEmpty : root = ""
  · rw [isEmpty] at isPath ⊢
    have same : components path = rest := isPath
    rw [join_empty, ← same]
    exact components_joinSegments_components path
  · have areInner := isInner_of_mem_rest isEmpty isPath
    rw [components_join isEmpty (head?_joinSegments_text areInner),
      innerComponents_joinSegments_text areInner, isPath]

theorem toOption_relative_congr {other otherRoot : String}
    (samePath : components path = components other)
    (sameRoot : components root = components otherRoot) :
    (relative path root).toOption = (relative other otherRoot).toOption := by
  rw [relative, relative, samePath, sameRoot]
  cases below? (components otherRoot) (components other) with
  | none => rfl
  | some rest => rfl

/-!
# Paths to the file system
-/

theorem relativeFrom_of_absent {canonical? : OsPath -> Option Location} {path root : OsPath}
    (absent : canonical? path = none ∨ canonical? root = none) :
    relativeFrom canonical? path root = stripped path root := by
  rw [relativeFrom]
  rcases absent with isAbsent | isAbsent
  · rw [isAbsent]
  · rw [isAbsent]
    cases canonical? path with
    | none => rfl
    | some location => rfl

theorem mapM_text?_of_writes {components : List (Component Name)}
    {parts : List (Component String)} (writes : List.Forall₂ Component.Writes components parts) :
    components.mapM Component.text? = some (parts.map Component.text) := by
  refine mapM_eq_some_iff.mpr (List.forall₂_map_right_iff.mpr (writes.imp ?_))
  intro component part isPart
  exact Component.text?_eq_some_iff.mpr ⟨part, isPart, rfl⟩

theorem stripped_eq_outside {path root : OsPath}
    (notFront : ¬ root.components <+: path.components) :
    stripped path root = .error (.outside { path := path.shown, root := root.shown }) := by
  rw [stripped]
  cases isBelow : below? root.components path.components with
  | none => rfl
  | some rest => exact absurd ⟨rest, (below?_eq_some_iff.mp isBelow).symm⟩ notFront

theorem stripped_of_components {path root : OsPath} {rest : List (Component Name)}
    (isPath : path.components = root.components ++ rest) :
    stripped path root =
      match rest.mapM Component.text? with
      | some texts => .ok (joinSegments texts)
      | none => .error .invalidName := by
  have isBelow : below? root.components path.components = some rest := below?_eq_some_iff.mpr isPath
  cases areTexts : rest.mapM Component.text? with
  | none => simp only [stripped, isBelow, areTexts]
  | some texts => simp only [stripped, isBelow, areTexts]

theorem exists_rest_of_stripped {path root : OsPath} {text : String}
    (isText : stripped path root = .ok text) :
    ∃ rest texts, path.components = root.components ++ rest ∧
      rest.mapM Component.text? = some texts ∧ text = joinSegments texts := by
  rw [stripped] at isText
  cases isBelow : below? root.components path.components with
  | none =>
      rw [isBelow] at isText
      cases isText
  | some rest =>
      rw [isBelow] at isText
      dsimp only at isText
      cases areTexts : rest.mapM Component.text? with
      | none =>
          rw [areTexts] at isText
          cases isText
      | some texts =>
          rw [areTexts] at isText
          exact ⟨rest, texts, below?_eq_some_iff.mp isBelow, areTexts,
            (Except.ok.inj isText).symm⟩

theorem exists_writes_of_mapM {components : List (Component Name)} {texts : List String}
    (areTexts : components.mapM Component.text? = some texts) :
    ∃ parts, List.Forall₂ Component.Writes components parts ∧
      texts = parts.map Component.text := by
  have each := mapM_eq_some_iff.mp areTexts
  clear areTexts
  induction each with
  | nil => exact ⟨[], .nil, rfl⟩
  | cons isFirst _ ih =>
      rcases Component.text?_eq_some_iff.mp isFirst with ⟨part, writes, rfl⟩
      rcases ih with ⟨parts, areWritten, rfl⟩
      exact ⟨part :: parts, .cons writes areWritten, rfl⟩

theorem mapM_text?_names (names : List Name) :
    (names.map Component.name).mapM Component.text? = names.mapM Name.text? := by
  rw [List.mapM_map]
  rfl

theorem areEntryNames_of_mapM {names : List Name} {texts : List String}
    (areTexts : names.mapM Name.text? = some texts) :
    ∀ text ∈ texts, isEntryName text = true := by
  have each := mapM_eq_some_iff.mp areTexts
  clear areTexts
  induction each with
  | nil => exact nofun
  | cons isFirst _ ih =>
      exact List.forall_mem_cons.mpr ⟨Name.isEntryName_of_text? isFirst, ih⟩

theorem stripped_path (base : Location) (names : List Name) :
    stripped (Location.path (base ++ names)) base.path =
      match names.mapM Name.text? with
      | some texts => .ok (joinSegments texts)
      | none => .error .invalidName := by
  have isPath : (Location.path (base ++ names)).components =
      base.path.components ++ names.map .name := by
    rw [Location.components_path, Location.components_path, List.map_append, List.cons_append]
  rw [stripped_of_components isPath, mapM_text?_names]

theorem writes_below? {first second : List (Component Name)}
    {firstParts secondParts : List (Component String)}
    (isFirst : List.Forall₂ Component.Writes first firstParts)
    (isSecond : List.Forall₂ Component.Writes second secondParts) :
    Option.Rel (List.Forall₂ Component.Writes) (below? first second)
      (below? firstParts secondParts) := by
  induction isFirst generalizing second secondParts with
  | nil => exact .some isSecond
  | @cons one part _ _ writes _ ih =>
      cases isSecond with
      | nil => exact .none
      | @cons other otherPart _ _ alsoWrites others =>
          rw [below?, below?]
          by_cases same : one = other
          · have sameText : part = otherPart :=
              Component.Writes.rightUnique writes (same ▸ alsoWrites)
            rw [if_pos same, if_pos sameText]
            exact ih others
          · have otherText : part ≠ otherPart :=
              fun sameText => same (Component.Writes.leftUnique writes (sameText ▸ alsoWrites))
            rw [if_neg same, if_neg otherText]
            exact .none

theorem stripped_ofText (path root : String) :
    stripped (.ofText path) (.ofText root) = (relative path root).mapError .outside := by
  have writes := writes_below? (OsPath.writes_components root) (OsPath.writes_components path)
  rw [stripped, relative]
  generalize below? _ (OsPath.ofText path).components = left at writes
  generalize below? (components root) (components path) = right at writes
  cases writes with
  | none =>
      dsimp only
      rw [OsPath.shown_ofText, OsPath.shown_ofText]
      rfl
  | some rest =>
      dsimp only
      rw [mapM_text?_of_writes rest]
      rfl

/-!
# Round trips
-/

/-- What a relative path of `path` below `root` tells. -/
structure RoundTrips (path root : String) : Prop where
  /-- Where one of the two leads nowhere, both are taken as given. -/
  asGiven : ∀ canonical? : OsPath -> Option Location,
    canonical? (.ofText path) = none ∨ canonical? (.ofText root) = none ->
      relativeFrom canonical? (.ofText path) (.ofText root) =
        (relative path root).mapError .outside
  below : (∃ text, relative path root = .ok text) ↔ components root <+: components path
  outside : relative path root = .error { path := path, root := root } ↔
    ¬ components root <+: components path
  joined : ∀ text, relative path root = .ok text ->
    components (join root text) = components path
  injective : ∀ text other, relative path root = .ok text -> relative other root = .ok text ->
    components other = components path
  spelling : ∀ other otherRoot, SpelledAlike path other -> SpelledAlike root otherRoot ->
    (relative path root).toOption = (relative other otherRoot).toOption

/-- A path has a relative path if and only if the components of the root come first in it, and
joined to the root the relative path has the components of the path. So two paths with the same
relative path have the same components, and how often a slash is repeated, whether one stands at the
end, and dots between slashes make no difference. -/
theorem relative_round_trips (path root : String) : RoundTrips path root where
  asGiven := fun _ absent => (relativeFrom_of_absent absent).trans (stripped_ofText path root)
  below := by
    constructor
    · rintro ⟨text, isRelative⟩
      rcases relative_eq_ok_iff.mp isRelative with ⟨rest, isPath, _⟩
      exact ⟨rest, isPath.symm⟩
    · rintro ⟨rest, isPath⟩
      exact ⟨_, relative_eq_ok_iff.mpr ⟨rest, isPath.symm, rfl⟩⟩
  outside := relative_eq_error_iff
  joined := fun _ isRelative => components_join_relative isRelative
  injective := fun _ _ isRelative alsoRelative =>
    (components_join_relative alsoRelative).symm.trans (components_join_relative isRelative)
  spelling := fun _ _ pathAlike rootAlike =>
    toOption_relative_congr pathAlike.components_eq rootAlike.components_eq

/-- Below `/w/`, the path `/w//src/./A.java` is `src/A.java`. So is `/w/src/A.java` below `/w`. -/
theorem relative_round_trips_doubled_slash :
    relative "/w//src/./A.java" "/w/" = .ok "src/A.java" ∧
      components (join "/w/" "src/A.java") = components "/w//src/./A.java" ∧
      (relative "/w//src/./A.java" "/w/").toOption = (relative "/w/src/A.java" "/w").toOption := by
  have isRelative : relative "/w//src/./A.java" "/w/" = .ok "src/A.java" := by decide +kernel
  have trips := relative_round_trips "/w//src/./A.java" "/w/"
  have pathAlike : SpelledAlike "/w//src/./A.java" "/w/src/A.java" :=
    .trans _ "/w/src/./A.java" _ (.symm _ _ (.rel _ _ (.slash "/w" "src/./A.java")))
      (.symm _ _ (.rel _ _ (.dot "/w/src" "A.java")))
  have rootAlike : SpelledAlike "/w/" "/w" :=
    .symm _ _ (.rel _ _ (.trailing "/w" (by decide)))
  exact ⟨isRelative, trips.joined _ isRelative, trips.spelling _ _ pathAlike rootAlike⟩

end Path
end CommandWiring
