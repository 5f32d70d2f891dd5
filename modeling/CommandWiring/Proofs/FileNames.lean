import CommandWiring.Path.Name
import CommandWiring.Proofs.TextLines
import Mathlib.Data.List.Forall2

/-!
# Names and their bytes

The file system reads a path in bytes. If the path is a text, its components are those of the text,
since a slash is one byte and this byte stands in no other character. A name put behind a path adds
itself to the components, whether it is a text or not.
-/

namespace CommandWiring

theorem mapM_eq_some_iff {α β : Type} {f : α -> Option β} {elements : List α}
    {results : List β} :
    elements.mapM f = some results ↔
      List.Forall₂ (fun element result => f element = some result) elements results := by
  constructor
  · intro done
    induction elements generalizing results with
    | nil =>
        cases done
        exact .nil
    | cons first rest ih =>
        rw [List.mapM_cons] at done
        rcases Option.bind_eq_some_iff.mp done with ⟨result, isFirst, given⟩
        rcases Option.bind_eq_some_iff.mp given with ⟨more, areRest, isAll⟩
        rcases Option.some.inj isAll with rfl
        exact .cons isFirst (ih areRest)
  · intro each
    induction each with
    | nil => rfl
    | cons isFirst _ ih =>
        rw [List.mapM_cons, isFirst, ih]
        rfl

theorem exists_of_mapM_eq_none {α β : Type} {f : α -> Option β} {elements : List α}
    (stops : elements.mapM f = none) : ∃ element ∈ elements, f element = none := by
  induction elements with
  | nil => cases stops
  | cons first rest ih =>
      cases isFirst : f first with
      | none => exact ⟨first, List.mem_cons_self, isFirst⟩
      | some result =>
          cases areRest : rest.mapM f with
          | none =>
              rcases ih areRest with ⟨element, member, isNone⟩
              exact ⟨element, List.mem_cons_of_mem first member, isNone⟩
          | some more =>
              rw [List.mapM_cons, isFirst, areRest] at stops
              cases stops

namespace Text

/-!
# Bytes of a text
-/

theorem ofBytes?_bytes (text : String) : Path.ofBytes? (bytes text) = some text := by
  have same : ByteArray.mk (bytes text).toArray = text.toUTF8 := by
    rw [bytes, Array.toArray_toList]
  rw [Path.ofBytes?, same, String.fromUTF8?, String.toUTF8_eq_toByteArray,
    dif_pos text.isValidUTF8]
  rfl

theorem bytes_of_ofBytes? {text : String} {encoded : List UInt8}
    (isText : Path.ofBytes? encoded = some text) : bytes text = encoded := by
  rw [Path.ofBytes?, String.fromUTF8?] at isText
  split at isText
  · rcases Option.some.inj isText with rfl
    exact List.toList_toArray
  · cases isText

theorem bytes_injective {first second : String} (same : bytes first = bytes second) :
    first = second := by
  have decoded := congrArg Path.ofBytes? same
  rw [ofBytes?_bytes, ofBytes?_bytes] at decoded
  exact Option.some.inj decoded

theorem bytes_append (first second : String) :
    bytes (first ++ second) = bytes first ++ bytes second := by
  rw [← String.ofList_toList (s := first), ← String.ofList_toList (s := second),
    ← String.ofList_append, bytes_ofList, bytes_ofList, bytes_ofList, List.flatMap_append]

theorem bytes_eq_nil_iff {text : String} : bytes text = [] ↔ text = "" := by
  constructor
  · exact fun isNil => bytes_injective (isNil.trans (by decide +kernel))
  · rintro rfl
    decide +kernel

theorem le_of_mem_spread {lead places n : Nat} {byte : UInt8} (high : 128 ≤ lead)
    (small : lead + n / 64 ^ places < 256) (member : byte ∈ spread lead places n) :
    128 ≤ byte.toNat := by
  induction places generalizing n with
  | zero =>
      rw [pow_zero, Nat.div_one] at small
      rw [List.mem_singleton.mp member, UInt8.toNat_ofNat_of_lt' small]
      omega
  | succ places ih =>
      rw [pow_succ', ← Nat.div_div_eq_div_mul] at small
      rcases List.mem_append.mp member with before | isLast
      · exact ih small before
      · have fits : n % 64 + 128 < 256 := by omega
        rw [List.mem_singleton.mp isLast, UInt8.toNat_ofNat_of_lt' fits]
        omega

theorem slash_mem_utf8EncodeChar_iff {c : Char} :
    Path.slash ∈ String.utf8EncodeChar c ↔ c = '/' := by
  constructor
  · intro member
    have small := firstByte_lt (code_le c)
    rw [utf8EncodeChar_eq_spread] at member
    by_cases short : c.val.toNat ≤ 127
    · have isByte : c.val.toNat < UInt8.size := Nat.lt_of_le_of_lt short (by decide)
      rw [placesOf, if_pos short] at member
      have same := congrArg UInt8.toNat (List.mem_singleton.mp member)
      rw [leadOf, Nat.zero_add, UInt8.toNat_ofNat_of_lt' isByte] at same
      exact Char.ext (UInt32.toNat_inj.mp same.symm)
    · have high : 128 ≤ leadOf (placesOf c.val.toNat) := by
        rw [placesOf, if_neg short]
        split_ifs <;> decide
      exact absurd (le_of_mem_spread high small member) (by decide)
  · rintro rfl
    decide +kernel

theorem slash_mem_bytes_iff {text : String} : Path.slash ∈ bytes text ↔ '/' ∈ text.toList := by
  rw [← String.ofList_toList (s := text), bytes_ofList, List.mem_flatMap, String.toList_ofList]
  simp only [slash_mem_utf8EncodeChar_iff, exists_eq_right]

theorem bytes_intercalate (parts : List (List Char)) :
    bytes (String.ofList (['/'].intercalate parts)) =
      [Path.slash].intercalate (parts.map fun part => bytes (String.ofList part)) := by
  induction parts with
  | nil => decide +kernel
  | cons first rest ih =>
      cases rest with
      | nil => simp
      | cons second more =>
          have isSlash : bytes (String.ofList ['/']) = [Path.slash] := by decide +kernel
          rw [List.intercalate_cons_cons, String.ofList_append, bytes_append,
            String.ofList_append, bytes_append, ih, isSlash, List.map_cons, List.map_cons,
            List.map_cons, List.intercalate_cons_cons]

theorem splitAt_bytes (chars : List Char) :
    splitAt Path.slash (bytes (String.ofList chars)) =
      (splitAt '/' chars).map fun segment => bytes (String.ofList segment) := by
  have whole : ['/'].intercalate (splitAt '/' chars) = chars := by
    rw [splitAt_eq_splitOn]
    exact List.intercalate_splitOn '/'
  have free : ∀ part ∈ (splitAt '/' chars).map (fun segment => bytes (String.ofList segment)),
      Path.slash ∉ part := by
    intro part member
    rcases List.mem_map.mp member with ⟨segment, isSegment, rfl⟩
    rw [slash_mem_bytes_iff, String.toList_ofList]
    exact separator_notMem_of_mem_splitAt isSegment
  have notNil : (splitAt '/' chars).map (fun segment => bytes (String.ofList segment)) ≠ [] :=
    fun isNil => splitAt_ne_nil _ _ (List.map_eq_nil_iff.mp isNil)
  have parts := splitAt_intercalate free notNil
  rwa [← bytes_intercalate, whole] at parts

end Text

namespace Path

open Text (bytes_injective slash_mem_bytes_iff splitAt_bytes)

/-!
# Names
-/

namespace Name

theorem ofBytes?_bytes_text (text : String) : ofBytes? (Text.bytes text) = ofText? text := by
  rw [ofBytes?, Text.ofBytes?_bytes]

theorem ofText?_eq_plain {text : String} (isEntry : isEntryName text = true) :
    ofText? text = some (plain text isEntry) :=
  dif_pos isEntry

theorem isEntryName_of_text? {name : Name} {text : String} (isText : name.text? = some text) :
    isEntryName text = true := by
  cases name with
  | plain other isEntry =>
      rcases Option.some.inj isText with rfl
      exact isEntry
  | broken bytes isBroken => cases isText

theorem eq_of_text? {name other : Name} {text : String} (isText : name.text? = some text)
    (alsoText : other.text? = some text) : name = other := by
  cases name with
  | broken _ _ => cases isText
  | plain one _ =>
      cases other with
      | broken _ _ => cases alsoText
      | plain two _ =>
          rcases Option.some.inj isText with rfl
          rcases Option.some.inj alsoText with rfl
          rfl

theorem spells (name : Name) : inBytes.Spells name.bytes (.name name) := by
  cases name with
  | plain text isEntry =>
      have counts := ofSegment?_toList isEntry
      have notSpecial (other : String) (differs : written.ofSegment? other.toList ≠
          some (.name other)) : Text.bytes text ≠ Text.bytes other := by
        intro same
        rw [bytes_injective same] at counts
        exact differs counts
      constructor
      · exact fun member => slash_notMem isEntry (slash_mem_bytes_iff.mp member)
      · have notNil : Text.bytes text ≠ [] := fun isNil =>
          notSpecial "" (by decide) (isNil.trans (by decide +kernel))
        have notDot : Text.bytes text ≠ [dot] := fun isDot =>
          notSpecial "." (by decide) (isDot.trans (by decide +kernel))
        have notDots : Text.bytes text ≠ [dot, dot] := fun isDots =>
          notSpecial ".." (by decide) (isDots.trans (by decide +kernel))
        change inBytes.ofSegment? (Text.bytes text) = _
        rw [Script.ofSegment?_of_ne notNil notDot notDots]
        change (ofBytes? (Text.bytes text)).map _ = _
        rw [ofBytes?_bytes_text, ofText?_eq_plain isEntry]
        rfl
  | broken broken isBroken =>
      have both := isBroken
      rw [isBrokenName, Bool.and_eq_true, Option.isNone_iff_eq_none] at both
      have notSpecial {text : List UInt8} (isText : (Path.ofBytes? text).isSome) :
          broken ≠ text := by
        rintro rfl
        rw [both.1] at isText
        cases isText
      constructor
      · intro member
        have contained : broken.contains slash = true := List.contains_iff_mem.mpr member
        rw [contained] at both
        cases both.2
      · change inBytes.ofSegment? broken = _
        rw [Script.ofSegment?_of_ne (notSpecial (by decide +kernel))
          (notSpecial (by decide +kernel)) (notSpecial (by decide +kernel))]
        change (ofBytes? broken).map _ = _
        rw [ofBytes?, both.1]
        dsimp only
        rw [dif_pos isBroken]
        rfl

end Name

/-!
# Components
-/

inductive Component.Writes : Component Name -> Component String -> Prop
  | root : Writes .root .root
  | current : Writes .current .current
  | parent : Writes .parent .parent
  | name {text : String} (isEntry : isEntryName text = true) :
      Writes (.name (.plain text isEntry)) (.name text)

theorem Component.Writes.leftUnique : Relator.LeftUnique Component.Writes := by
  intro first second text isFirst isSecond
  cases isFirst <;> cases isSecond <;> rfl

theorem Component.Writes.rightUnique : Relator.RightUnique Component.Writes := by
  intro component first second isFirst isSecond
  cases isFirst <;> cases isSecond <;> rfl

theorem Component.text?_eq_some_iff {component : Component Name} {text : String} :
    component.text? = some text ↔ ∃ part, component.Writes part ∧ part.text = text := by
  constructor
  · intro isText
    cases component with
    | root => exact ⟨_, .root, Option.some.inj isText⟩
    | current => exact ⟨_, .current, Option.some.inj isText⟩
    | parent => exact ⟨_, .parent, Option.some.inj isText⟩
    | name name =>
        cases name with
        | plain other isEntry => exact ⟨_, .name isEntry, Option.some.inj isText⟩
        | broken bytes isBroken => cases isText
  · rintro ⟨part, isPart, rfl⟩
    cases isPart <;> rfl

theorem isEntryName_of_segment {segment : List Char} (free : '/' ∉ segment) (notNil : segment ≠ [])
    (notDot : segment ≠ ['.']) (notDots : segment ≠ ['.', '.']) :
    isEntryName (String.ofList segment) = true := by
  rw [isEntryName, String.toList_ofList, Bool.and_eq_true]
  refine ⟨by simpa using free, ?_⟩
  rw [beq_iff_eq, Script.ofSegment?_of_ne notNil notDot notDots]
  rfl

theorem writes_ofSegment? {segment : List Char} (free : '/' ∉ segment) :
    Option.Rel Component.Writes (inBytes.ofSegment? (Text.bytes (String.ofList segment)))
      (written.ofSegment? segment) := by
  have apart {other : List Char} (differs : segment ≠ other) :
      Text.bytes (String.ofList segment) ≠ Text.bytes (String.ofList other) := by
    intro same
    have lists := congrArg String.toList (bytes_injective same)
    rw [String.toList_ofList, String.toList_ofList] at lists
    exact differs lists
  by_cases isNil : segment = []
  · rw [isNil]
    exact .none
  by_cases isDot : segment = ['.']
  · rw [isDot]
    exact .none
  by_cases isDots : segment = ['.', '.']
  · rw [isDots]
    exact .some .parent
  have isEntry := isEntryName_of_segment free isNil isDot isDots
  have bytesNil : Text.bytes (String.ofList []) = [] := by decide +kernel
  have bytesDot : Text.bytes (String.ofList ['.']) = [dot] := by decide +kernel
  have bytesDots : Text.bytes (String.ofList ['.', '.']) = [dot, dot] := by decide +kernel
  rw [Script.ofSegment?_of_ne isNil isDot isDots,
    Script.ofSegment?_of_ne (bytesNil ▸ apart isNil) (bytesDot ▸ apart isDot)
      (bytesDots ▸ apart isDots)]
  change Option.Rel _ ((Name.ofBytes? _).map _) _
  rw [Name.ofBytes?_bytes_text, Name.ofText?_eq_plain isEntry]
  exact .some (.name isEntry)

theorem forall₂_filterMap {α β γ : Type} {related : β -> γ -> Prop} {f : α -> Option β}
    {g : α -> Option γ} {elements : List α}
    (each : ∀ element ∈ elements, Option.Rel related (f element) (g element)) :
    List.Forall₂ related (elements.filterMap f) (elements.filterMap g) := by
  induction elements with
  | nil => exact .nil
  | cons first rest ih =>
      rcases List.forall_mem_cons.mp each with ⟨isFirst, areRest⟩
      rw [List.filterMap_cons, List.filterMap_cons]
      generalize f first = one at isFirst
      generalize g first = other at isFirst
      cases isFirst with
      | none => exact ih areRest
      | some relates => exact .cons relates (ih areRest)

theorem writes_innerComponents (chars : List Char) :
    List.Forall₂ Component.Writes (inBytes.innerComponents (Text.bytes (String.ofList chars)))
      (written.innerComponents chars) := by
  change List.Forall₂ _ ((Text.splitAt slash _).filterMap _) ((Text.splitAt '/' chars).filterMap _)
  rw [splitAt_bytes, List.filterMap_map]
  apply forall₂_filterMap
  intro segment member
  exact writes_ofSegment? (Text.separator_notMem_of_mem_splitAt member)

theorem head?_bytes (chars : List Char) :
    (Text.bytes (String.ofList chars)).head? = some slash ↔ chars.head? = some '/' := by
  rw [Text.bytes_ofList]
  cases chars with
  | nil => exact iff_of_false nofun nofun
  | cons c rest =>
      rw [List.flatMap_cons, List.head?_append_of_ne_nil _ String.utf8EncodeChar_ne_nil,
        List.head?_cons, Option.some_inj]
      constructor
      · intro isSlash
        exact Text.slash_mem_utf8EncodeChar_iff.mp (List.mem_of_mem_head? isSlash)
      · rintro rfl
        decide +kernel

theorem writes_lead? (chars : List Char) :
    Option.Rel Component.Writes (inBytes.lead? (Text.bytes (String.ofList chars)))
      (written.lead? chars) := by
  have isDot : Text.bytes (String.ofList ['.']) = [dot] := by decide +kernel
  have dotted : (Text.splitAt slash (Text.bytes (String.ofList chars))).head? = some [dot] ↔
      (Text.splitAt '/' chars).head? = some ['.'] := by
    rw [splitAt_bytes, List.head?_map, ← isDot, Option.map_eq_some_iff]
    constructor
    · rintro ⟨segment, isFirst, same⟩
      have lists := congrArg String.toList (bytes_injective same)
      rw [String.toList_ofList, String.toList_ofList] at lists
      rwa [← lists]
    · intro isFirst
      exact ⟨_, isFirst, rfl⟩
  by_cases rooted : chars.head? = some '/'
  · rw [Script.lead?_eq_root_iff.mpr ((head?_bytes chars).mpr rooted),
      Script.lead?_eq_root_iff.mpr rooted]
    exact .some .root
  · have notRooted := (head?_bytes chars).not.mpr rooted
    by_cases isCurrent : (Text.splitAt '/' chars).head? = some ['.']
    · rw [Script.lead?_of_dot notRooted (dotted.mpr isCurrent),
        Script.lead?_of_dot rooted isCurrent]
      exact .some .current
    · rw [Script.lead?_eq_none notRooted (dotted.not.mpr isCurrent),
        Script.lead?_eq_none rooted isCurrent]
      exact .none

end Path

namespace OsPath

open CommandWiring.Path (Component)

/-- The components of a text, as the file system reads it, have the texts of its components. -/
theorem writes_components (path : String) :
    List.Forall₂ Component.Writes (ofText path).components (Path.components path) := by
  have chars : path = String.ofList path.toList := String.ofList_toList.symm
  rw [components, ofText, Path.components, chars, String.toList_ofList]
  refine List.rel_append ?_ (Path.writes_innerComponents _)
  have isLead := Path.writes_lead? path.toList
  generalize Path.inBytes.lead? _ = lead at isLead
  generalize Path.written.lead? _ = other at isLead
  cases isLead with
  | none => exact .nil
  | some writes => exact .cons writes .nil

/-!
# Names behind a path
-/

theorem components_push (path : OsPath) (name : Path.Name) :
    (path.push name).components = path.components ++ [.name name] :=
  name.spells.components_push path.bytes

theorem components_descend (path : OsPath) (names : List Path.Name) :
    (names.foldl push path).components = path.components ++ names.map .name := by
  induction names generalizing path with
  | nil => exact (List.append_nil _).symm
  | cons name rest ih =>
      rw [List.foldl_cons, ih, components_push, List.append_assoc]
      rfl

theorem getLast?_bytes (text : String) :
    (Text.bytes text).getLast? = some Path.slash ↔ text.toList.getLast? = some '/' := by
  rw [← String.ofList_toList (s := text), Text.bytes_ofList, String.toList_ofList]
  rcases List.eq_nil_or_concat text.toList with isNil | ⟨front, c, isConcat⟩
  · rw [isNil]
    exact iff_of_false nofun nofun
  · rw [isConcat, List.concat_eq_append, List.flatMap_append, List.flatMap_singleton,
      List.getLast?_append_of_ne_nil _ String.utf8EncodeChar_ne_nil, List.getLast?_concat,
      Option.some_inj]
    constructor
    · intro isSlash
      exact Text.slash_mem_utf8EncodeChar_iff.mp (List.mem_of_getLast? isSlash)
    · rintro rfl
      decide +kernel

theorem push_ofText (base : String) {text : String} (isEntry : Path.isEntryName text = true) :
    (ofText base).push (.plain text isEntry) = ofText (Path.join base text) := by
  have notRooted : text.toList.head? ≠ some '/' :=
    fun isSlash => Path.slash_notMem isEntry (List.mem_of_mem_head? isSlash)
  have slashBytes : Text.bytes "/" = [Path.slash] := by decide +kernel
  rw [push, ofText, ofText, Path.join, if_neg notRooted]
  simp only [Text.bytes_eq_nil_iff, getLast?_bytes]
  split_ifs
  · rw [Text.bytes_append]
    rfl
  · rw [Text.bytes_append, Text.bytes_append, slashBytes, List.append_assoc]
    rfl

theorem shown_ofText (path : String) : (ofText path).shown = path := by
  rw [shown, ofText, Text.ofBytes?_bytes]

end OsPath

theorem Location.components_path (location : Location) :
    location.path.components = .root :: location.map .name := by
  rw [path, OsPath.components_descend]
  rfl

end CommandWiring
