import CommandWiring.Path.Language
import Mathlib.Data.List.Basic

/-!
# Paths of names

The names of a place joined by slashes are a path, and the components of the path are the names
again. So a place has one such path, and places have different ones.
-/

namespace CommandWiring
namespace Text

/-!
# Segments
-/

section

variable {α : Type} [DecidableEq α] {separator : α}

theorem partsFrom_eq (separator : α) (current text : List α) :
    partsFrom separator current text =
      List.splitOnPPrepend (fun c => c == separator) text current := by
  induction text generalizing current with
  | nil => rfl
  | cons c rest ih =>
      rw [partsFrom, List.splitOnPPrepend_cons_eq_if, ih, ih]
      simp [List.splitOnPPrepend_nil_right]

theorem splitAt_eq_splitOn (separator : α) (text : List α) :
    splitAt separator text = text.splitOn separator :=
  partsFrom_eq separator [] text

theorem splitAt_ne_nil (separator : α) (text : List α) : splitAt separator text ≠ [] := by
  rw [splitAt_eq_splitOn]
  exact List.splitOn_ne_nil _ _

theorem splitAt_intercalate {parts : List (List α)} (free : ∀ part ∈ parts, separator ∉ part)
    (nonempty : parts ≠ []) : splitAt separator ([separator].intercalate parts) = parts := by
  rw [splitAt_eq_splitOn]
  exact List.splitOn_intercalate separator free nonempty

theorem splitAt_of_notMem {text : List α} (free : separator ∉ text) :
    splitAt separator text = [text] := by
  have single := splitAt_intercalate (List.forall_mem_singleton.mpr free)
    (List.cons_ne_nil text [])
  rwa [List.intercalate_singleton] at single

theorem splitAt_append_cons (separator : α) (first rest : List α) :
    splitAt separator (first ++ separator :: rest) =
      splitAt separator first ++ splitAt separator rest := by
  simp only [splitAt_eq_splitOn]
  exact List.splitOn_append_cons_self first rest

end

end Text

namespace Path

open Text (splitAt splitAt_ne_nil splitAt_intercalate splitAt_of_notMem splitAt_append_cons)

/-!
# Components in any script
-/

namespace Script

variable {α N : Type} [DecidableEq α] {script : Script α N}

theorem ofSegment?_dot : script.ofSegment? [script.dot] = none :=
  if_pos (.inr rfl)

theorem ofSegment?_dots : script.ofSegment? [script.dot, script.dot] = some .parent := by
  simp [ofSegment?]

theorem ofSegment?_of_ne {segment : List α} (notNil : segment ≠ [])
    (notDot : segment ≠ [script.dot]) (notDots : segment ≠ [script.dot, script.dot]) :
    script.ofSegment? segment = (script.name? segment).map .name := by
  rw [ofSegment?, if_neg (not_or.mpr ⟨notNil, notDot⟩), if_neg notDots]

theorem ofSegment?_ne_lead (segment : List α) :
    script.ofSegment? segment ≠ some .root ∧ script.ofSegment? segment ≠ some .current := by
  rw [ofSegment?]
  split_ifs
  · exact ⟨nofun, nofun⟩
  · exact ⟨nofun, nofun⟩
  · cases script.name? segment with
    | none => exact ⟨nofun, nofun⟩
    | some name => exact ⟨nofun, nofun⟩

theorem ne_lead_of_mem_inner {path : List α} {component : Component N}
    (member : component ∈ script.innerComponents path) :
    component ≠ .root ∧ component ≠ .current := by
  rcases List.mem_filterMap.mp member with ⟨segment, _, counts⟩
  constructor
  · rintro rfl
    exact (ofSegment?_ne_lead segment).1 counts
  · rintro rfl
    exact (ofSegment?_ne_lead segment).2 counts

theorem innerComponents_append_slash (script : Script α N) (first rest : List α) :
    script.innerComponents (first ++ script.slash :: rest) =
      script.innerComponents first ++ script.innerComponents rest := by
  rw [innerComponents, splitAt_append_cons, List.filterMap_append]
  rfl

theorem lead?_of_dot {path : List α} (notRooted : path.head? ≠ some script.slash)
    (isDot : (splitAt script.slash path).head? = some [script.dot]) :
    script.lead? path = some .current := by
  rw [lead?, if_neg notRooted, if_pos isDot]

theorem lead?_eq_none {path : List α} (notRooted : path.head? ≠ some script.slash)
    (notDot : (splitAt script.slash path).head? ≠ some [script.dot]) :
    script.lead? path = none := by
  rw [lead?, if_neg notRooted, if_neg notDot]

theorem lead?_append_slash {first : List α} (notEmpty : first ≠ []) (rest : List α) :
    script.lead? (first ++ script.slash :: rest) = script.lead? first := by
  rw [lead?, lead?, splitAt_append_cons, List.head?_append_of_ne_nil _ notEmpty,
    List.head?_append_of_ne_nil _ (splitAt_ne_nil _ _)]

theorem components_append_slash {first : List α} (notEmpty : first ≠ []) (rest : List α) :
    script.components (first ++ script.slash :: rest) =
      script.components first ++ script.innerComponents rest := by
  rw [components, lead?_append_slash notEmpty, innerComponents_append_slash, ← List.append_assoc]
  rfl

theorem components_slash (before after : List α) :
    script.components (before ++ script.slash :: after) =
      script.components (before ++ [script.slash]) ++ script.innerComponents after := by
  have isLead : script.lead? (before ++ script.slash :: after) =
      script.lead? (before ++ [script.slash]) := by
    by_cases isEmpty : before = []
    · rw [isEmpty, List.nil_append, List.nil_append, lead?, lead?, List.head?_cons,
        List.head?_cons, if_pos rfl, if_pos rfl]
    · rw [lead?_append_slash isEmpty, lead?_append_slash isEmpty]
  have noInner : script.innerComponents [] = [] := rfl
  rw [components, components, isLead, innerComponents_append_slash, innerComponents_append_slash,
    noInner, List.append_nil, List.append_assoc]

theorem components_append_slash_nil {first : List α} (notEmpty : first ≠ []) :
    script.components (first ++ [script.slash]) = script.components first := by
  rw [components_append_slash notEmpty]
  exact List.append_nil _

theorem lead?_eq_root_iff {path : List α} :
    script.lead? path = some .root ↔ path.head? = some script.slash := by
  rw [lead?]
  split_ifs with rooted dotted
  · exact iff_of_true rfl rooted
  · exact iff_of_false nofun rooted
  · exact iff_of_false nofun rooted

theorem eq_lead_of_lead? {path : List α} {component : Component N}
    (isLead : script.lead? path = some component) : component = .root ∨ component = .current := by
  rw [lead?] at isLead
  split_ifs at isLead
  · exact .inl (Option.some.inj isLead).symm
  · exact .inr (Option.some.inj isLead).symm

theorem root_mem_components_iff {path : List α} :
    Component.root ∈ script.components path ↔ path.head? = some script.slash := by
  rw [components, List.mem_append, Option.mem_toList, ← lead?_eq_root_iff]
  constructor
  · rintro (isLead | inner)
    · exact isLead
    · exact absurd rfl (ne_lead_of_mem_inner inner).1
  · exact .inl

/-!
# Segments
-/

/-- `segment` is one segment, and it counts as `component`. -/
structure Spells (script : Script α N) (segment : List α) (component : Component N) : Prop where
  free : script.slash ∉ segment
  counts : script.ofSegment? segment = some component

variable {segment base : List α} {component : Component N}

theorem Spells.ne_nil (spells : script.Spells segment component) : segment ≠ [] := by
  rintro rfl
  cases spells.counts

theorem Spells.ne_dot (spells : script.Spells segment component) : segment ≠ [script.dot] := by
  rintro rfl
  have counts := spells.counts
  rw [ofSegment?_dot] at counts
  cases counts

theorem Spells.innerComponents (spells : script.Spells segment component) :
    script.innerComponents segment = [component] := by
  rw [Script.innerComponents, splitAt_of_notMem spells.free,
    List.filterMap_cons_some spells.counts, List.filterMap_nil]

theorem Spells.lead?_append (spells : script.Spells segment component) {rest : List α}
    (follows : rest = [] ∨ rest.head? = some script.slash) :
    script.lead? (segment ++ rest) = none := by
  have notRooted : (segment ++ rest).head? ≠ some script.slash := by
    rw [List.head?_append_of_ne_nil _ spells.ne_nil]
    exact fun isSlash => spells.free (List.mem_of_mem_head? isSlash)
  have isFirst : (splitAt script.slash (segment ++ rest)).head? = some segment := by
    rcases follows with rfl | isSlash
    · rw [List.append_nil, splitAt_of_notMem spells.free]
      rfl
    · rcases List.head?_eq_some_iff.mp isSlash with ⟨behind, rfl⟩
      rw [splitAt_append_cons, splitAt_of_notMem spells.free]
      rfl
  refine lead?_eq_none notRooted ?_
  rw [isFirst]
  exact fun same => spells.ne_dot (Option.some.inj same)

theorem Spells.components (spells : script.Spells segment component) :
    script.components segment = [component] := by
  have noLead : script.lead? (segment ++ []) = none := spells.lead?_append (.inl rfl)
  rw [List.append_nil] at noLead
  rw [Script.components, noLead, spells.innerComponents]
  rfl

theorem Spells.components_push (spells : script.Spells segment component) (base : List α) :
    script.components (if base = [] ∨ base.getLast? = some script.slash then base ++ segment
      else base ++ script.slash :: segment) = script.components base ++ [component] := by
  by_cases isEmpty : base = []
  · rw [if_pos (.inl isEmpty), isEmpty, List.nil_append, spells.components]
    rfl
  · by_cases endsInSlash : base.getLast? = some script.slash
    · rw [if_pos (.inr endsInSlash)]
      rcases List.getLast?_eq_some_iff.mp endsInSlash with ⟨front, rfl⟩
      rw [List.append_assoc, List.singleton_append, components_slash, spells.innerComponents]
    · rw [if_neg (not_or.mpr ⟨isEmpty, endsInSlash⟩), components_append_slash isEmpty,
        spells.innerComponents]

end Script

/-!
# Components of texts
-/

variable {name : String} {names : List String}

theorem slash_notMem (isName : isEntryName name = true) : '/' ∉ name.toList := by
  rw [isEntryName, Bool.and_eq_true] at isName
  simpa using isName.1

theorem ofSegment?_toList (isName : isEntryName name = true) :
    written.ofSegment? name.toList = some (.name name) := by
  rw [isEntryName, Bool.and_eq_true] at isName
  exact beq_iff_eq.mp isName.2

theorem toList_append_slash (root text : String) :
    (root ++ "/" ++ text).toList = root.toList ++ '/' :: text.toList := by
  rw [String.toList_append, String.toList_append, List.append_assoc]
  rfl

theorem toList_joinSegments (segments : List String) :
    (joinSegments segments).toList = ['/'].intercalate (segments.map String.toList) :=
  String.toList_intercalate

def innerComponents (text : String) : List (Component String) :=
  written.innerComponents text.toList

theorem components_append_slash {root : String} (notEmpty : root ≠ "") (text : String) :
    components (root ++ "/" ++ text) = components root ++ innerComponents text := by
  rw [components, toList_append_slash]
  exact Script.components_append_slash (fun isNil => notEmpty (String.toList_eq_nil_iff.mp isNil)) _

theorem components_append_slash_nil {root : String} (notEmpty : root ≠ "") :
    components (root ++ "/") = components root := by
  rw [components, String.toList_append]
  exact Script.components_append_slash_nil
    (fun isNil => notEmpty (String.toList_eq_nil_iff.mp isNil))

theorem components_slash (before after : String) :
    components (before ++ "/" ++ after) = components (before ++ "/") ++ innerComponents after := by
  rw [components, components, toList_append_slash, String.toList_append]
  exact Script.components_slash _ _

/-!
# Inner components
-/

/-- A component as it can stand behind the first place: its text is one segment, and writes it. -/
abbrev Component.IsInner (component : Component String) : Prop :=
  written.Spells component.text.toList component

theorem isInner_name (isName : isEntryName name = true) :
    (Component.name name : Component String).IsInner where
  free := slash_notMem isName
  counts := ofSegment?_toList isName

section

variable {inner : List (Component String)} (areInner : ∀ component ∈ inner, component.IsInner)
include areInner

theorem splitAt_joinSegments_text (notEmpty : inner ≠ []) :
    splitAt '/' (joinSegments (inner.map Component.text)).toList =
      inner.map fun component => component.text.toList := by
  rw [toList_joinSegments, List.map_map]
  apply splitAt_intercalate
  · intro segment member
    rcases List.mem_map.mp member with ⟨component, isMember, rfl⟩
    exact (areInner component isMember).free
  · exact fun isEmpty => notEmpty (List.map_eq_nil_iff.mp isEmpty)

theorem innerComponents_joinSegments_text :
    innerComponents (joinSegments (inner.map Component.text)) = inner := by
  by_cases isEmpty : inner = []
  · rw [isEmpty]
    rfl
  · change (splitAt '/' _).filterMap written.ofSegment? = inner
    rw [splitAt_joinSegments_text areInner isEmpty, List.filterMap_map]
    calc inner.filterMap (fun component => written.ofSegment? component.text.toList)
        = inner.filterMap some :=
          List.filterMap_congr fun component member => (areInner component member).counts
      _ = inner := List.filterMap_some

theorem components_joinSegments_text :
    components (joinSegments (inner.map Component.text)) = inner := by
  cases inner with
  | nil => rfl
  | cons first rest =>
      have inners := innerComponents_joinSegments_text areInner
      have isFirst := areInner first List.mem_cons_self
      have noLead : written.lead? (joinSegments ((first :: rest).map Component.text)).toList =
          none := by
        rw [toList_joinSegments]
        cases rest with
        | nil =>
            have noLead : written.lead? (first.text.toList ++ []) = none :=
              isFirst.lead?_append (.inl rfl)
            rw [List.append_nil] at noLead
            rwa [List.map_singleton, List.map_singleton, List.intercalate_singleton]
        | cons second more =>
            rw [List.map_cons, List.map_cons, List.map_cons, List.map_cons,
              List.intercalate_cons_cons, List.append_assoc]
            exact isFirst.lead?_append (.inr rfl)
      rw [components, Script.components, noLead]
      exact inners

theorem head?_joinSegments_text :
    (joinSegments (inner.map Component.text)).toList.head? ≠ some '/' := by
  intro isRooted
  have member : Component.root ∈ components (joinSegments (inner.map Component.text)) :=
    Script.root_mem_components_iff.mpr isRooted
  rw [components_joinSegments_text areInner] at member
  exact (Script.ofSegment?_ne_lead _).1 (areInner .root member).counts

end

/-!
# Paths of names
-/

theorem map_text_names (names : List String) :
    (names.map Component.name).map Component.text = names := by
  rw [List.map_map]
  exact List.map_id names

section

variable (areNames : ∀ name ∈ names, isEntryName name = true)
include areNames

theorem isInner_of_mem_names : ∀ component ∈ names.map Component.name, component.IsInner := by
  intro component member
  rcases List.mem_map.mp member with ⟨name, isName, rfl⟩
  exact isInner_name (areNames name isName)

theorem components_joinSegments : components (joinSegments names) = names.map .name := by
  have inner := components_joinSegments_text (isInner_of_mem_names areNames)
  rwa [map_text_names] at inner

end

theorem below?_append {N : Type} [DecidableEq N] (root rest : List (Component N)) :
    below? root (root ++ rest) = some rest := by
  induction root with
  | nil => rfl
  | cons component root ih =>
      rw [List.cons_append, below?, if_pos rfl]
      exact ih

theorem extension?_congr {first second : String}
    (same : (components first).getLast? = (components second).getLast?) :
    extension? first = extension? second := by
  rw [extension?, extension?, fileName?, fileName?, same]

/-!
# Separators
-/

theorem backslash_notMem_slashed (path : String) : '\\' ∉ (slashed path).toList := by
  rw [slashed, String.toList_ofList, List.mem_map]
  intro written
  rcases written with ⟨c, _, isBackslash⟩
  split at isBackslash
  · cases isBackslash
  · next notBackslash => exact notBackslash isBackslash

theorem slashed_eq_self_iff {path : String} : slashed path = path ↔ '\\' ∉ path.toList := by
  constructor
  · intro same
    rw [← same]
    exact backslash_notMem_slashed path
  · intro none
    rw [slashed, List.map_congr_left (g := id), List.map_id, String.ofList_toList]
    intro c member
    apply if_neg
    intro isBackslash
    exact none (isBackslash ▸ member)

theorem slashed_slashed (path : String) : slashed (slashed path) = slashed path :=
  slashed_eq_self_iff.mpr (backslash_notMem_slashed path)

end Path

namespace Language

/-!
# Languages
-/

variable {path : String}

theorem isSupported_iff : isSupported path = true ↔ Path.extension? path = some "java" := by
  rw [isSupported, ofPath?]
  cases Path.extension? path with
  | none => simp
  | some ending =>
      by_cases isJava : ending = "java"
      · simp [ofExtension?, isJava]
      · simp [ofExtension?, isJava]

theorem ofPath?_of_isSupported (supported : isSupported path = true) :
    ofPath? path = some "java" := by
  rw [ofPath?, isSupported_iff.mp supported]
  rfl

end Language
end CommandWiring
