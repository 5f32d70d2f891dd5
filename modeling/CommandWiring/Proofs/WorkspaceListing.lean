import CommandWiring.Proofs.FileReports
import CommandWiring.Proofs.Roots
import Mathlib.Data.List.Nodup

/-!
# What a scan finds

A scan goes through the files of supported languages below its root, each once. What it makes of a
file depends only on the path from the root and on the text. It does not get that far if one of the
files lies below a directory whose name is no text.
-/

namespace CommandWiring
namespace Workspace

open CommandWiring.Path (Name joinSegments)

variable {system : FileSystem} {root : String} {base location : Location} {names : List Name}
  {texts : List String} {bytes : ByteArray}

/-!
# Files below a root
-/

/-- A file as a scan finds it: its path from the root, the path that it is read from, and its text
if it has one. -/
structure Listed where
  path : String
  shown : String
  text? : Option String
deriving DecidableEq

/-- The file to which names with the given texts lead from `root`. -/
def Listed.below (root : String) (texts : List String) (text? : Option String) : Listed where
  path := relativeBelow root texts
  shown := shownBelow root texts
  text? := text?

/-- The names lead from `root` to a file with these bytes. -/
def Reaches (system : FileSystem) (root : String) (names : List Name) (bytes : ByteArray) : Prop :=
  ∃ base, system.resolve? (.ofText (root ++ "/")) = some base ∧
    system.entry? (base ++ names) = some (.file bytes)

/-- Below `root` there is the Java file `listed`. -/
structure Holds (system : FileSystem) (root : String) (listed : Listed) : Prop where
  isJava : Path.extension? listed.path = some "java"
  reached : ∃ names texts bytes, Reaches system root names bytes ∧
    names.mapM Name.text? = some texts ∧ listed = .below root texts (String.fromUTF8? bytes)

/-- Below `root` there is a Java file in a directory whose name is no text. -/
def HidesJava (system : FileSystem) (root : String) : Prop :=
  ∃ names bytes, Reaches system root names bytes ∧ hasSupportedName names = true ∧
    names.mapM Name.text? = none

theorem Reaches.of_resolve? (isBase : system.resolve? (.ofText (root ++ "/")) = some base) :
    Reaches system root names bytes ↔ system.entry? (base ++ names) = some (.file bytes) := by
  constructor
  · rintro ⟨other, isOther, isFile⟩
    rwa [Option.some.inj (isBase.symm.trans isOther)]
  · intro isFile
    exact ⟨base, isBase, isFile⟩

theorem not_reaches_of_resolve? (isNowhere : system.resolve? (.ofText (root ++ "/")) = none) :
    ¬ Reaches system root names bytes := by
  rintro ⟨base, isBase, _⟩
  rw [isNowhere] at isBase
  cases isBase

/-!
# Names of Java files
-/

theorem ne_nil_of_hasSupportedName (supported : hasSupportedName names = true) : names ≠ [] := by
  rintro rfl
  cases supported

theorem hasSupportedName_append (base : Location) (notEmpty : names ≠ []) :
    hasSupportedName (base ++ names) = hasSupportedName names := by
  rw [hasSupportedName, hasSupportedName, List.getLast?_append_of_ne_nil _ notEmpty]

theorem getLast?_texts (areTexts : names.mapM Name.text? = some texts) :
    names.getLast?.bind Name.text? = texts.getLast? := by
  have each := mapM_eq_some_iff.mp areTexts
  clear areTexts
  induction each with
  | nil => rfl
  | cons isFirst rest ih =>
      cases rest with
      | nil => exact isFirst
      | cons isSecond more =>
          rw [List.getLast?_cons_of_ne_nil (List.cons_ne_nil _ _), ih,
            List.getLast?_cons_of_ne_nil (List.cons_ne_nil _ _)]

theorem hasSupportedName_iff (root : String) (areTexts : names.mapM Name.text? = some texts) :
    hasSupportedName names = true ↔
      Path.extension? (relativeBelow root texts) = some "java" := by
  have areNames := Path.areEntryNames_of_mapM areTexts
  rw [hasSupportedName, getLast?_texts areTexts]
  rcases List.eq_nil_or_concat texts with rfl | ⟨front, last, rfl⟩
  · have noExtension : Path.extension? (relativeBelow root []) = none := by
      rw [relativeBelow, leadOf]
      split_ifs
      · decide
      · decide
    rw [noExtension]
    constructor
    · intro supported
      cases supported
    · intro isJava
      cases isJava
  · have isLast : Path.isEntryName last = true :=
      areNames last (by simp)
    have sameLast : (Path.components last).getLast? =
        (Path.components (relativeBelow root (front.concat last))).getLast? := by
      have alone : Path.components last = [.name last] := (Path.isInner_name isLast).components
      rw [components_relativeBelow root areNames, alone]
      simp
    rw [List.concat_eq_append, List.getLast?_concat, ← List.concat_eq_append,
      ← Path.extension?_congr sameLast, ← Language.isSupported_iff]
    rfl

/-!
# Files below a place
-/

def supportedBelow (system : FileSystem) (base : Location) : List Location :=
  (filesBelow system base).filter hasSupportedName

theorem mem_filesBelow :
    location ∈ filesBelow system base ↔
      ∃ names bytes, names ≠ [] ∧ location = base ++ names ∧
        system.entry? (base ++ names) = some (.file bytes) := by
  simp only [filesBelow, List.mem_map, List.mem_filter, Bool.and_eq_true, bne_iff_ne,
    List.isPrefixOf_iff_prefix]
  constructor
  · intro below
    rcases below with ⟨⟨place, entry⟩, ⟨listed, ⟨⟨names, rfl⟩, apart⟩, isFile⟩, rfl⟩
    cases entry with
    | directory => cases isFile
    | file bytes =>
        refine ⟨names, bytes, ?_, rfl, FileSystem.entry?_of_mem listed⟩
        intro isNil
        exact apart (List.append_right_eq_self.mpr isNil)
  · intro below
    rcases below with ⟨names, bytes, notEmpty, rfl, isFile⟩
    refine ⟨_, ⟨FileSystem.mem_of_entry?_eq_file isFile, ⟨⟨names, rfl⟩, ?_⟩, rfl⟩, rfl⟩
    intro same
    exact notEmpty (List.append_right_eq_self.mp same)

theorem nodup_supportedBelow (system : FileSystem) (base : Location) :
    (supportedBelow system base).Nodup := by
  have listed : (filesBelow system base).Sublist (system.entries.map Prod.fst) :=
    List.filter_sublist.map Prod.fst
  exact (listed.nodup system.once).filter _

def found (system : FileSystem) (base : Location) : List (List Name) :=
  ((supportedBelow system base).mergeSort Location.before).map fun location =>
    location.drop base.length

theorem mem_found :
    names ∈ found system base ↔ hasSupportedName names = true ∧
      ∃ bytes, system.entry? (base ++ names) = some (.file bytes) := by
  simp only [found, List.mem_map, List.mem_mergeSort, supportedBelow, List.mem_filter,
    mem_filesBelow]
  constructor
  · rintro ⟨_, ⟨⟨others, bytes, notEmpty, rfl, isFile⟩, supported⟩, rfl⟩
    rw [hasSupportedName_append base notEmpty] at supported
    rw [List.drop_left]
    exact ⟨supported, bytes, isFile⟩
  · rintro ⟨supported, bytes, isFile⟩
    have notEmpty := ne_nil_of_hasSupportedName supported
    refine ⟨_, ⟨⟨names, bytes, notEmpty, rfl, isFile⟩, ?_⟩, List.drop_left⟩
    rwa [hasSupportedName_append base notEmpty]

theorem nodup_found (system : FileSystem) (base : Location) : (found system base).Nodup := by
  refine List.Nodup.map_on ?_ ((List.mergeSort_perm _ _).nodup_iff.mpr
    (nodup_supportedBelow system base))
  intro first isFirst second isSecond same
  rw [List.mem_mergeSort, supportedBelow, List.mem_filter, mem_filesBelow] at isFirst isSecond
  rcases isFirst.1 with ⟨names, _, _, rfl, _⟩
  rcases isSecond.1 with ⟨others, _, _, rfl, _⟩
  rw [List.drop_left, List.drop_left] at same
  rw [same]

theorem hidesJava_iff (isBase : system.resolve? (.ofText (root ++ "/")) = some base) :
    HidesJava system root ↔ ∃ names ∈ found system base, names.mapM Name.text? = none := by
  simp only [HidesJava, Reaches.of_resolve? isBase, mem_found]
  constructor
  · rintro ⟨names, bytes, isFile, supported, noTexts⟩
    exact ⟨names, ⟨supported, bytes, isFile⟩, noTexts⟩
  · rintro ⟨names, ⟨supported, bytes, isFile⟩, noTexts⟩
    exact ⟨names, bytes, isFile, supported, noTexts⟩

/-!
# The files below a root
-/

def listedAt? (system : FileSystem) (root : String) (base : Location) (names : List Name) :
    Option Listed :=
  (names.mapM Name.text?).map fun texts => .below root texts (system.textAt? (base ++ names))

/-- The files that a scan goes through, in the order in which it finds them. -/
def listing (system : FileSystem) (root : String) : List Listed :=
  match system.resolve? (.ofText (root ++ "/")) with
  | none => []
  | some base => (found system base).filterMap (listedAt? system root base)

theorem listing_of_resolve?_eq_none (isNowhere : system.resolve? (.ofText (root ++ "/")) = none) :
    listing system root = [] := by
  rw [listing, isNowhere]

theorem listing_of_resolve? (isBase : system.resolve? (.ofText (root ++ "/")) = some base) :
    listing system root = (found system base).filterMap (listedAt? system root base) := by
  rw [listing, isBase]

theorem listedAt?_eq_some {listed : Listed} :
    listedAt? system root base names = some listed ↔
      ∃ texts, names.mapM Name.text? = some texts ∧
        listed = .below root texts (system.textAt? (base ++ names)) := by
  rw [listedAt?, Option.map_eq_some_iff]
  constructor
  · rintro ⟨texts, areTexts, rfl⟩
    exact ⟨texts, areTexts, rfl⟩
  · rintro ⟨texts, areTexts, rfl⟩
    exact ⟨texts, areTexts, rfl⟩

theorem textAt?_of_file (isFile : system.entry? (base ++ names) = some (.file bytes)) :
    system.textAt? (base ++ names) = String.fromUTF8? bytes := by
  rw [FileSystem.textAt?, isFile]
  rfl

theorem mem_listing {listed : Listed} :
    listed ∈ listing system root ↔ Holds system root listed := by
  cases isBase : system.resolve? (.ofText (root ++ "/")) with
  | none =>
      rw [listing_of_resolve?_eq_none isBase]
      refine iff_of_false nofun ?_
      rintro ⟨_, _, _, _, reaches, _⟩
      exact not_reaches_of_resolve? isBase reaches
  | some base =>
      rw [listing_of_resolve? isBase, List.mem_filterMap]
      constructor
      · rintro ⟨names, member, isListed⟩
        rcases listedAt?_eq_some.mp isListed with ⟨texts, areTexts, rfl⟩
        rcases mem_found.mp member with ⟨supported, bytes, isFile⟩
        refine ⟨(hasSupportedName_iff root areTexts).mp supported, names, texts, bytes,
          (Reaches.of_resolve? isBase).mpr isFile, areTexts, ?_⟩
        rw [textAt?_of_file isFile]
      · rintro ⟨isJava, names, texts, bytes, reaches, areTexts, rfl⟩
        have isFile := (Reaches.of_resolve? isBase).mp reaches
        have supported := (hasSupportedName_iff root areTexts).mpr isJava
        refine ⟨names, mem_found.mpr ⟨supported, bytes, isFile⟩, ?_⟩
        refine listedAt?_eq_some.mpr ⟨texts, areTexts, ?_⟩
        rw [textAt?_of_file isFile]

theorem names_eq_of_texts {others : List Name} (areTexts : names.mapM Name.text? = some texts)
    (alsoTexts : others.mapM Name.text? = some texts) : names = others := by
  have unique : Relator.LeftUnique fun (name : Name) (text : String) => name.text? = some text :=
    fun _ _ _ isText alsoText => Name.eq_of_text? isText alsoText
  exact List.left_unique_forall₂' unique (mapM_eq_some_iff.mp areTexts)
    (mapM_eq_some_iff.mp alsoTexts)

theorem nodup_listing (system : FileSystem) (root : String) :
    ((listing system root).map Listed.path).Nodup := by
  cases isBase : system.resolve? (.ofText (root ++ "/")) with
  | none =>
      rw [listing_of_resolve?_eq_none isBase]
      exact List.nodup_nil
  | some base =>
      rw [listing_of_resolve? isBase, List.Nodup, List.pairwise_map, List.pairwise_filterMap]
      refine (nodup_found system base).imp ?_
      intro names others apart listed isListed other isOther same
      rcases listedAt?_eq_some.mp isListed with ⟨texts, areTexts, rfl⟩
      rcases listedAt?_eq_some.mp isOther with ⟨otherTexts, areOthers, rfl⟩
      have sameTexts := relativeBelow_injective (Path.areEntryNames_of_mapM areTexts)
        (Path.areEntryNames_of_mapM areOthers) same
      exact apart (names_eq_of_texts areTexts (sameTexts ▸ areOthers))

/-!
# Discovery
-/

theorem discover_of_resolve?_eq_none
    (isNowhere : system.resolve? (.ofText (root ++ "/")) = none) :
    discover system (.ofText root) = [] := by
  rw [discover, OsPath.shown_ofText, isNowhere]

theorem discover_of_resolve? (isBase : system.resolve? (.ofText (root ++ "/")) = some base) :
    discover system (.ofText root) = (found system base).map (pathBelow root) := by
  rw [discover, OsPath.shown_ofText, isBase, found, List.map_map]
  rfl

theorem isThere_of_mem_found (member : names ∈ found system base) :
    (system.entry? (base ++ names)).isSome := by
  rcases mem_found.mp member with ⟨_, bytes, isFile⟩
  rw [isFile]
  rfl

theorem relative_of_mem_found (isBase : system.resolve? (.ofText (root ++ "/")) = some base)
    (member : names ∈ found system base) :
    system.relative (pathBelow root names) (.ofText root) =
      match names.mapM Name.text? with
      | some texts => .ok (relativeBelow root texts)
      | none => .error .invalidName :=
  relative_pathBelow isBase (ne_nil_of_hasSupportedName (mem_found.mp member).1)
    (isThere_of_mem_found member)

theorem relativePaths_discover (visible : ¬ HidesJava system root) :
    relativePaths system (.ofText root) (discover system (.ofText root)) =
      .ok ((listing system root).map fun listed => (.ofText listed.shown, listed.path)) := by
  cases isBase : system.resolve? (.ofText (root ++ "/")) with
  | none =>
      rw [discover_of_resolve?_eq_none isBase, listing_of_resolve?_eq_none isBase]
      rfl
  | some base =>
      rw [hidesJava_iff isBase] at visible
      rw [discover_of_resolve? isBase, listing_of_resolve? isBase]
      have each : ∀ names ∈ found system base, ∃ texts, names.mapM Name.text? = some texts ∧
          system.relative (pathBelow root names) (.ofText root) =
            .ok (relativeBelow root texts) := by
        intro names member
        have isRelative := relative_of_mem_found isBase member
        cases areTexts : names.mapM Name.text? with
        | none => exact absurd ⟨names, member, areTexts⟩ visible
        | some texts =>
            rw [areTexts] at isRelative
            exact ⟨texts, rfl, isRelative⟩
      generalize found system base = all at each
      induction all with
      | nil => rfl
      | cons names rest ih =>
          rcases List.forall_mem_cons.mp each with ⟨⟨texts, areTexts, isRelative⟩, areRest⟩
          have isListed : listedAt? system root base names =
              some (.below root texts (system.textAt? (base ++ names))) :=
            listedAt?_eq_some.mpr ⟨texts, areTexts, rfl⟩
          have isTail := ih areRest
          rw [relativePaths] at isTail ⊢
          rw [List.map_cons, List.mapM_cons, isRelative, isTail,
            List.filterMap_cons_some isListed, List.map_cons, pathBelow_eq_ofText areTexts]
          rfl

theorem relativePaths_of_hidesJava (hides : HidesJava system root) :
    relativePaths system (.ofText root) (discover system (.ofText root)) =
      .error .invalidName := by
  cases isBase : system.resolve? (.ofText (root ++ "/")) with
  | none =>
      rcases hides with ⟨names, bytes, reaches, _⟩
      exact absurd reaches (not_reaches_of_resolve? isBase)
  | some base =>
      rcases (hidesJava_iff isBase).mp hides with ⟨names, member, noTexts⟩
      rw [discover_of_resolve? isBase, relativePaths]
      refine mapM_eq_error ?_ (List.mem_map_of_mem member) ?_
      · intro path isPath error isError
        rcases List.mem_map.mp isPath with ⟨others, isOther, rfl⟩
        rw [relative_of_mem_found isBase isOther] at isError
        cases areTexts : others.mapM Name.text? with
        | none =>
            rw [areTexts] at isError
            exact (Except.error.inj isError).symm
        | some texts =>
            rw [areTexts] at isError
            cases isError
      · rw [relative_of_mem_found isBase member, noTexts]
        rfl

/-!
# Reading
-/

def passedOver (listed : Listed) : Warning :=
  .unreadableFile listed.path (FileSystem.Unreadable.message { path := listed.shown })

def readListed (patterns : List String) (listed : Listed) : Logged (Option SourceFile) :=
  if Path.isIgnored patterns listed.path then pure none
  else
    match listed.text? with
    | some text => pure (some { path := listed.path, text := text })
    | none => .warned (passedOver listed) none

theorem readText_of_mem_listing {listed : Listed} (member : listed ∈ listing system root) :
    system.readText (.ofText listed.shown) =
      match listed.text? with
      | some text => .ok text
      | none => .error { path := listed.shown } := by
  cases isBase : system.resolve? (.ofText (root ++ "/")) with
  | none =>
      rw [listing_of_resolve?_eq_none isBase] at member
      cases member
  | some base =>
      rw [listing_of_resolve? isBase] at member
      rcases List.mem_filterMap.mp member with ⟨names, isFound, isListed⟩
      rcases listedAt?_eq_some.mp isListed with ⟨texts, areTexts, rfl⟩
      have leads := resolve?_pathBelow isBase
        (ne_nil_of_hasSupportedName (mem_found.mp isFound).1) (isThere_of_mem_found isFound)
      rw [pathBelow_eq_ofText areTexts] at leads
      have reads := FileSystem.readText_of_resolve? leads
      rw [OsPath.shown_ofText] at reads
      exact reads

theorem readSource_of_mem_listing {patterns : List String} {listed : Listed}
    (member : listed ∈ listing system root) :
    readSource system patterns (.ofText listed.shown) listed.path =
      readListed patterns listed := by
  rw [readSource, readListed, readText_of_mem_listing member]
  split
  · rfl
  · cases listed.text? with
    | none => rfl
    | some text => rfl

def Listed.source? (listed : Listed) : Option SourceFile :=
  listed.text?.map fun text => { path := listed.path, text := text }

def kept (patterns : List String) (files : List Listed) : List Listed :=
  files.filter fun listed => !Path.isIgnored patterns listed.path

def sources (patterns : List String) (files : List Listed) : List SourceFile :=
  (kept patterns files).filterMap Listed.source?

def textless (patterns : List String) (files : List Listed) : List Listed :=
  (kept patterns files).filter fun listed => listed.text?.isNone

theorem value_readListed (patterns : List String) (listed : Listed) :
    (readListed patterns listed).value =
      if Path.isIgnored patterns listed.path then none else listed.source? := by
  rw [readListed, Listed.source?]
  split
  · rfl
  · cases listed.text? with
    | none => rfl
    | some text => rfl

theorem warnings_readListed (patterns : List String) (listed : Listed) :
    (readListed patterns listed).warnings =
      if Path.isIgnored patterns listed.path || listed.text?.isSome then []
      else [passedOver listed] := by
  rw [readListed]
  cases Path.isIgnored patterns listed.path with
  | true => rfl
  | false =>
      cases listed.text? with
      | none => rfl
      | some text => rfl

theorem value_forEach_readListed (patterns : List String) (files : List Listed) :
    (Logged.forEach (readListed patterns) files).value.filterMap id = sources patterns files := by
  change ((files.map (readListed patterns)).map Logged.value).filterMap id = _
  rw [List.map_map, List.filterMap_map, sources, kept, List.filterMap_filter]
  apply List.filterMap_congr
  intro listed _
  change (readListed patterns listed).value = _
  rw [value_readListed]
  cases Path.isIgnored patterns listed.path with
  | true => rfl
  | false => rfl

theorem warnings_forEach_readListed (patterns : List String) (files : List Listed) :
    (Logged.forEach (readListed patterns) files).warnings =
      (textless patterns files).map passedOver := by
  change (files.map (readListed patterns)).flatMap Logged.warnings = _
  rw [List.flatMap_map]
  induction files with
  | nil => rfl
  | cons listed rest ih =>
      rw [List.flatMap_cons, ih, warnings_readListed, textless, textless, kept, kept,
        List.filter_cons]
      cases Path.isIgnored patterns listed.path with
      | true => rfl
      | false =>
          cases isText : listed.text? with
          | none => simp [isText]
          | some text => simp [isText]

theorem readSources_listing (patterns : List String) (system : FileSystem) (root : String) :
    readSources system patterns
        ((listing system root).map fun listed => (.ofText listed.shown, listed.path)) = {
      value := sources patterns (listing system root)
      warnings := (textless patterns (listing system root)).map passedOver } := by
  rw [readSources, Logged.forEach_map (g := readListed patterns)]
  · rw [Logged.map, value_forEach_readListed, warnings_forEach_readListed]
  · intro listed member
    exact readSource_of_mem_listing member

/-!
# The ignore file
-/

def ignoreFile? (system : FileSystem) (root : String) : Option Entry :=
  (system.resolve? (.ofText (root ++ "/"))).bind fun base => system.entry? (base ++ [ignoreFile])

def ignorePath (root : String) : String :=
  Path.join root Path.ignoreFileName

/-- What the ignore file below `root` says, where `none` means that there is no such file. -/
def HasIgnoreText (system : FileSystem) (root : String) : Option String -> Prop
  | none => ignoreFile? system root = none
  | some text => (ignoreFile? system root).bind Entry.text? = some text

instance (system : FileSystem) (root : String) :
    (text? : Option String) -> Decidable (HasIgnoreText system root text?)
  | none => decidable_of_iff _ Option.isNone_iff_eq_none
  | some text =>
      inferInstanceAs (Decidable ((ignoreFile? system root).bind Entry.text? = some text))

def patternsOf (text? : Option String) : List String :=
  (text?.map Path.ignorePatterns).getD []

theorem resolve?_ignoreFile (system : FileSystem) (root : String) :
    system.resolve? ((OsPath.ofText root).push ignoreFile) =
      (system.resolve? (.ofText (root ++ "/"))).bind fun base =>
        if (system.entry? (base ++ [ignoreFile])).isSome then some (base ++ [ignoreFile])
        else none := by
  have notEmpty : (OsPath.ofText (root ++ "/")).bytes ≠ [] := by
    intro isNil
    have isEmpty : root ++ "/" = "" := Text.bytes_eq_nil_iff.mp isNil
    simp at isEmpty
  have onward : (fun base : Location => if (system.entry? (base ++ [ignoreFile])).isSome then
      some (base ++ [ignoreFile]) else none) = fun base => system.follow? base [.name ignoreFile] :=
    funext fun base => (FileSystem.follow?_name system base ignoreFile).symm
  rw [onward, FileSystem.resolve?_bind notEmpty fun base notDirectory =>
      FileSystem.follow?_eq_none (List.cons_ne_nil _ _) notDirectory,
    ← FileSystem.follow?_append, FileSystem.resolve?_push, OsPath.components_push]
  by_cases isEmpty : root = ""
  · -- from the top the slash in front makes no difference
    rw [isEmpty]
    change system.follow? [] [.name ignoreFile] = system.follow? [] [.root, .name ignoreFile]
    rw [FileSystem.follow?.eq_def system [] [.root, .name ignoreFile]]
    dsimp only
    cases isDirectory : system.isDirectory [] with
    | true => rfl
    | false => exact FileSystem.follow?_eq_none (List.cons_ne_nil _ _) isDirectory
  · rw [FileSystem.components_ofText_slash isEmpty]

theorem shown_ignoreFile (root : String) :
    ((OsPath.ofText root).push ignoreFile).shown = ignorePath root := by
  rw [ignoreFile, OsPath.push_ofText, OsPath.shown_ofText, ignorePath]

theorem ignorePatterns_eq (system : FileSystem) (root : String) :
    ignorePatterns system (.ofText root) =
      match ignoreFile? system root with
      | none => .ok []
      | some entry =>
          match entry.text? with
          | some text => .ok (Path.ignorePatterns text)
          | none => .error { path := ignorePath root } := by
  have leads := resolve?_ignoreFile system root
  rw [ignorePatterns, ignoreFile?]
  cases isBase : system.resolve? (.ofText (root ++ "/")) with
  | none =>
      rw [isBase, Option.bind_none] at leads
      simp only [leads, Option.bind_none]
  | some base =>
      rw [isBase, Option.bind_some] at leads
      rw [Option.bind_some]
      cases isEntry : system.entry? (base ++ [ignoreFile]) with
      | none =>
          rw [isEntry, if_neg (by simp)] at leads
          simp only [leads]
      | some entry =>
          rw [isEntry, if_pos Option.isSome_some] at leads
          simp only [leads, FileSystem.readText_of_resolve? leads, FileSystem.textAt?, isEntry,
            Option.bind_some, shown_ignoreFile]
          cases entry.text? with
          | none => rfl
          | some text => rfl

theorem ignorePatterns_of_hasIgnoreText {text? : Option String}
    (hasText : HasIgnoreText system root text?) :
    ignorePatterns system (.ofText root) = .ok (patternsOf text?) := by
  rw [ignorePatterns_eq]
  cases text? with
  | none =>
      rw [show ignoreFile? system root = none from hasText]
      rfl
  | some text =>
      rcases Option.bind_eq_some_iff.mp hasText with ⟨entry, isEntry, isText⟩
      rw [isEntry]
      simp only [isText]
      rfl

/-- The ignore file is there, but it is a directory or holds no text. -/
def IgnoreFileIsUnreadable (system : FileSystem) (root : String) : Prop :=
  ∃ entry, ignoreFile? system root = some entry ∧ entry.text? = none

theorem ignorePatterns_of_unreadable (unreadable : IgnoreFileIsUnreadable system root) :
    ignorePatterns system (.ofText root) = .error { path := ignorePath root } := by
  rcases unreadable with ⟨entry, isEntry, noText⟩
  rw [ignorePatterns_eq, isEntry]
  simp only [noText]

theorem exists_hasIgnoreText (readable : ¬ IgnoreFileIsUnreadable system root) :
    ∃ text?, HasIgnoreText system root text? := by
  cases isEntry : ignoreFile? system root with
  | none => exact ⟨none, isEntry⟩
  | some entry =>
      cases isText : entry.text? with
      | none => exact absurd ⟨entry, isEntry, isText⟩ readable
      | some text =>
          refine ⟨some text, ?_⟩
          rw [HasIgnoreText, isEntry]
          exact isText

theorem not_unreadable_of_hasIgnoreText {text? : Option String}
    (hasText : HasIgnoreText system root text?) : ¬ IgnoreFileIsUnreadable system root := by
  intro unreadable
  have isOk := ignorePatterns_of_hasIgnoreText hasText
  rw [ignorePatterns_of_unreadable unreadable] at isOk
  cases isOk

theorem patternsOf_unique {text? other? : Option String}
    (hasText : HasIgnoreText system root text?) (alsoHasText : HasIgnoreText system root other?) :
    patternsOf text? = patternsOf other? :=
  Except.ok.inj ((ignorePatterns_of_hasIgnoreText hasText).symm.trans
    (ignorePatterns_of_hasIgnoreText alsoHasText))

/-!
# Scanning
-/

variable {parser : Java.Parser} {options : ScanOptions} {text? : Option String}

theorem scan_of_unreadable (parser : Java.Parser) (options : ScanOptions)
    (unreadable : IgnoreFileIsUnreadable system root) :
    scan parser options system (.ofText root) =
      .ok (.error (.unreadable { path := ignorePath root })) := by
  rw [scan, ignorePatterns_of_unreadable unreadable]

theorem scan_of_hidesJava (parser : Java.Parser) (options : ScanOptions)
    (readable : ¬ IgnoreFileIsUnreadable system root) (hides : HidesJava system root) :
    scan parser options system (.ofText root) = .ok (.error (.relative .invalidName)) := by
  rcases exists_hasIgnoreText readable with ⟨text?, hasText⟩
  rw [scan, ignorePatterns_of_hasIgnoreText hasText, relativePaths_of_hidesJava hides]

theorem scan_eq (parser : Java.Parser) (options : ScanOptions)
    (hasText : HasIgnoreText system root text?) (visible : ¬ HidesJava system root) :
    scan parser options system (.ofText root) =
      (scanSources parser options (sources (patternsOf text?) (listing system root))).map
        fun scanned => .ok {
          value := scanned.value
          warnings := (textless (patternsOf text?) (listing system root)).map passedOver ++
            scanned.warnings } := by
  rw [scan, ignorePatterns_of_hasIgnoreText hasText, relativePaths_discover visible]
  dsimp only
  rw [readSources_listing]
  cases scanSources parser options (sources (patternsOf text?) (listing system root)) with
  | error panic => rfl
  | ok scanned => rfl

end Workspace
end CommandWiring
