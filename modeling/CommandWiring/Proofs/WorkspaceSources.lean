import CommandWiring.Proofs.WorkspaceListing

/-!
# The sources of a scan

A scan scans the Java files below its root that hold a text and that no pattern covers, in the order
of their paths. Java files without a text are passed over.
-/

namespace CommandWiring
namespace Workspace

open CommandWiring.Path (Name)

variable {system : FileSystem} {root : String} {base : Location} {patterns : List String}

/-!
# Sources
-/

/-- Below `root` there is a Java file with this path and this text, and no pattern covers it. -/
structure IsSource (system : FileSystem) (root : String) (patterns : List String)
    (source : SourceFile) : Prop where
  held : ∃ shown, Holds system root
    { path := source.path, shown := shown, text? := some source.text }
  kept : Path.isIgnored patterns source.path = false

/-- Below `root` there is the Java file `listed`, which holds no text, and no pattern covers it. -/
structure IsTextless (system : FileSystem) (root : String) (patterns : List String)
    (listed : Listed) : Prop where
  held : Holds system root listed
  noText : listed.text? = none
  kept : Path.isIgnored patterns listed.path = false

theorem mem_kept {listed : Listed} :
    listed ∈ kept patterns (listing system root) ↔
      Holds system root listed ∧ Path.isIgnored patterns listed.path = false := by
  rw [kept, List.mem_filter, mem_listing, Bool.not_eq_true']

theorem mem_sources {source : SourceFile} :
    source ∈ sources patterns (listing system root) ↔ IsSource system root patterns source := by
  rw [sources, List.mem_filterMap]
  constructor
  · rintro ⟨⟨path, shown, text?⟩, member, isSource⟩
    rcases Option.map_eq_some_iff.mp isSource with ⟨text, rfl, rfl⟩
    rcases mem_kept.mp member with ⟨held, notIgnored⟩
    exact ⟨⟨shown, held⟩, notIgnored⟩
  · rintro ⟨⟨shown, held⟩, notIgnored⟩
    exact ⟨_, mem_kept.mpr ⟨held, notIgnored⟩, rfl⟩

theorem mem_textless {listed : Listed} :
    listed ∈ textless patterns (listing system root) ↔ IsTextless system root patterns listed := by
  rw [textless, List.mem_filter, mem_kept, Option.isNone_iff_eq_none]
  constructor
  · rintro ⟨⟨held, notIgnored⟩, noText⟩
    exact ⟨held, noText, notIgnored⟩
  · rintro ⟨held, noText, notIgnored⟩
    exact ⟨⟨held, notIgnored⟩, noText⟩

theorem pairwise_kept (patterns : List String) (system : FileSystem) (root : String) :
    (kept patterns (listing system root)).Pairwise fun first second =>
      first.path ≠ second.path :=
  (List.pairwise_map.mp (nodup_listing system root)).filter _

theorem nodup_sources (patterns : List String) (system : FileSystem) (root : String) :
    ((sources patterns (listing system root)).map SourceFile.path).Nodup := by
  rw [List.Nodup, List.pairwise_map, sources, List.pairwise_filterMap]
  apply (pairwise_kept patterns system root).imp
  intro first second apart source isSource other isOther same
  rcases Option.map_eq_some_iff.mp isSource with ⟨_, _, rfl⟩
  rcases Option.map_eq_some_iff.mp isOther with ⟨_, _, rfl⟩
  exact apart same

theorem nodup_textless (patterns : List String) (system : FileSystem) (root : String) :
    ((textless patterns (listing system root)).map Listed.path).Nodup :=
  List.pairwise_map.mpr ((pairwise_kept patterns system root).filter _)

theorem path_ne_of_isTextless {source : SourceFile} {listed : Listed}
    (isSource : IsSource system root patterns source)
    (isTextless : IsTextless system root patterns listed) : source.path ≠ listed.path := by
  intro same
  rcases isSource.held with ⟨shown, held⟩
  have isSame := List.inj_on_of_nodup_map (nodup_listing system root) (mem_listing.mpr held)
    (mem_listing.mpr isTextless.held) same
  have noText := isTextless.noText
  rw [← isSame] at noText
  cases noText

theorem IsSource.ofPath? {source : SourceFile} (isSource : IsSource system root patterns source) :
    Language.ofPath? source.path = some "java" := by
  rcases isSource.held with ⟨shown, held⟩
  exact Language.ofPath?_of_isSupported (Language.isSupported_iff.mpr held.isJava)

/-!
# The order of sources
-/

def ordered (sources : List SourceFile) : List SourceFile :=
  sources.mergeSort fun first second => first.path ≤ second.path

theorem perm_ordered (sources : List SourceFile) : (ordered sources).Perm sources :=
  List.mergeSort_perm _ _

theorem path_trans (a b c : SourceFile) (first : decide (a.path ≤ b.path) = true)
    (second : decide (b.path ≤ c.path) = true) : decide (a.path ≤ c.path) = true :=
  decide_eq_true (String.le_trans (of_decide_eq_true first) (of_decide_eq_true second))

theorem path_total (a b : SourceFile) :
    (decide (a.path ≤ b.path) || decide (b.path ≤ a.path)) = true := by
  rw [Bool.or_eq_true, decide_eq_true_iff, decide_eq_true_iff]
  exact String.le_total a.path b.path

theorem path_lt_ordered {sources : List SourceFile}
    (once : (sources.map SourceFile.path).Nodup) :
    (ordered sources).Pairwise fun first second => first.path < second.path := by
  have apart : (ordered sources).Pairwise fun first second => first.path ≠ second.path :=
    List.pairwise_map.mp (((perm_ordered sources).map SourceFile.path).nodup_iff.mpr once)
  have sorted := List.pairwise_mergeSort path_trans path_total sources
  apply (sorted.and apart).imp
  intro first second both
  by_contra notLess
  exact both.2 (String.le_antisymm (of_decide_eq_true both.1) (String.not_lt.mp notLess))

/-- These are the sources below `root`, in the order of their paths. -/
structure AreSources (system : FileSystem) (root : String) (patterns : List String)
    (sources : List SourceFile) : Prop where
  mem_iff : ∀ source, source ∈ sources ↔ IsSource system root patterns source
  ascending : sources.Pairwise fun first second => first.path < second.path

theorem areSources_ordered (patterns : List String) (system : FileSystem) (root : String) :
    AreSources system root patterns (ordered (sources patterns (listing system root))) where
  mem_iff _ := (perm_ordered _).mem_iff.trans mem_sources
  ascending := path_lt_ordered (nodup_sources patterns system root)

section

variable {all others : List SourceFile}

theorem AreSources.nodup (areSources : AreSources system root patterns all) :
    (all.map SourceFile.path).Nodup :=
  List.pairwise_map.mpr (areSources.ascending.imp String.ne_of_lt)

/-- Sources have one order. -/
theorem AreSources.eq_of_mem_iff {otherSystem : FileSystem} {otherRoot : String}
    (areSources : AreSources system root patterns all)
    (areOthers : AreSources otherSystem otherRoot patterns others)
    (same : ∀ source, IsSource system root patterns source ↔
      IsSource otherSystem otherRoot patterns source) : all = others := by
  have areSame : all.Perm others :=
    (List.perm_ext_iff_of_nodup areSources.nodup.of_map areOthers.nodup.of_map).mpr fun source =>
      (areSources.mem_iff source).trans ((same source).trans (areOthers.mem_iff source).symm)
  refine List.Perm.eq_of_pairwise ?_ areSources.ascending areOthers.ascending areSame
  intro first second _ _ before after
  exact absurd after (String.lt_asymm before)

theorem AreSources.unique (areSources : AreSources system root patterns all)
    (areOthers : AreSources system root patterns others) : all = others :=
  areSources.eq_of_mem_iff areOthers fun _ => Iff.rfl

end

/-!
# Sources of a given place

The listing is in the order of names. What does not depend on the order can be read off the files as
they stand in the file system.
-/

/-- The files below a place, in the order in which the file system gives them. -/
def listedBelow (system : FileSystem) (root : String) (base : Location) : List Listed :=
  ((supportedBelow system base).map fun location => location.drop base.length).filterMap
    (listedAt? system root base)

theorem perm_listing (isBase : system.resolve? (.ofText (root ++ "/")) = some base) :
    (listing system root).Perm (listedBelow system root base) := by
  rw [listing_of_resolve? isBase, found, listedBelow]
  exact ((List.mergeSort_perm _ _).map _).filterMap _

theorem isSource_iff_of_resolve? (isBase : system.resolve? (.ofText (root ++ "/")) = some base)
    {source : SourceFile} :
    IsSource system root patterns source ↔
      source ∈ sources patterns (listedBelow system root base) := by
  rw [← mem_sources]
  exact (((perm_listing isBase).filter _).filterMap _).mem_iff

theorem isTextless_iff_of_resolve? (isBase : system.resolve? (.ofText (root ++ "/")) = some base)
    {listed : Listed} :
    IsTextless system root patterns listed ↔
      listed ∈ textless patterns (listedBelow system root base) := by
  rw [← mem_textless]
  exact (((perm_listing isBase).filter _).filter _).mem_iff

theorem hidesJava_iff_of_resolve? (isBase : system.resolve? (.ofText (root ++ "/")) = some base) :
    HidesJava system root ↔
      ∃ location ∈ supportedBelow system base,
        (location.drop base.length).mapM Name.text? = none := by
  rw [hidesJava_iff isBase, found]
  simp only [List.mem_map, List.mem_mergeSort]
  constructor
  · rintro ⟨_, ⟨location, member, rfl⟩, noTexts⟩
    exact ⟨location, member, noTexts⟩
  · rintro ⟨location, member, noTexts⟩
    exact ⟨_, ⟨location, member, rfl⟩, noTexts⟩

theorem not_hidesJava_of_texts
    (areTexts : ∀ entry ∈ system.entries, ∀ name ∈ entry.1, name.text?.isSome = true) :
    ¬ HidesJava system root := by
  rintro ⟨names, bytes, ⟨base, _, isFile⟩, _, noTexts⟩
  rcases exists_of_mapM_eq_none noTexts with ⟨name, member, isNone⟩
  have isSome := areTexts _ (FileSystem.mem_of_entry?_eq_file isFile) name
    (List.mem_append_right base member)
  rw [isNone] at isSome
  cases isSome

end Workspace
end CommandWiring
