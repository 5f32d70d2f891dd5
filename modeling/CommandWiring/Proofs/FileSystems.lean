import CommandWiring.Proofs.FileNames
import CommandWiring.Workspace.Scan
import Mathlib.Data.List.Nodup

/-!
# Places in a file system

A path below a root leads to the place of its names below the place of the root, and seen from the
root it is the path of these names again.
-/

namespace CommandWiring

def Entry.text? : Entry -> Option String
  | directory => none
  | file bytes => String.fromUTF8? bytes

namespace FileSystem

variable {system : FileSystem} {location base : Location} {names : List Path.Name}

/-!
# Entries
-/

theorem of_find?_eq_some {found : Location × Entry}
    (isFound : (system.entries.find? fun entry => entry.1 == location) = some found) :
    found.1 = location ∧ found ∈ system.entries := by
  have sameLocation := List.find?_some isFound
  exact ⟨beq_iff_eq.mp sameLocation, List.mem_of_find?_eq_some isFound⟩

theorem entry?_of_mem {entry : Entry} (listed : (location, entry) ∈ system.entries) :
    system.entry? location = some entry := by
  have isSome : (system.entries.find? fun other => other.1 == location).isSome := by
    rw [List.find?_isSome]
    exact ⟨_, listed, beq_self_eq_true location⟩
  rcases Option.isSome_iff_exists.mp isSome with ⟨other, isFound⟩
  rcases of_find?_eq_some isFound with ⟨sameLocation, alsoListed⟩
  have same : other = (location, entry) :=
    List.inj_on_of_nodup_map system.once alsoListed listed sameLocation
  unfold entry?
  rw [isFound, same]

theorem mem_of_entry?_eq_file {bytes : ByteArray}
    (isFile : system.entry? location = some (.file bytes)) :
    (location, .file bytes) ∈ system.entries := by
  unfold entry? at isFile
  split at isFile
  · next place entry isFound =>
      rcases of_find?_eq_some isFound with ⟨rfl, listed⟩
      rwa [Option.some.inj isFile] at listed
  · split at isFile
    · cases isFile
    · cases isFile

theorem isSome_entry? :
    (system.entry? location).isSome ↔
      location = [] ∨ ∃ listed ∈ system.entries, location <+: listed.1 := by
  unfold entry?
  split
  · next place entry isFound =>
      rcases of_find?_eq_some isFound with ⟨rfl, listed⟩
      exact iff_of_true rfl (Or.inr ⟨_, listed, List.prefix_refl place⟩)
  · simp

theorem isThere_above (isThere : (system.entry? location).isSome)
    (isFront : base <+: location) : (system.entry? base).isSome := by
  rcases isSome_entry?.mp isThere with rfl | ⟨listed, isListed, reaches⟩
  · exact isSome_entry?.mpr (Or.inl (List.prefix_nil.mp isFront))
  · exact isSome_entry?.mpr (Or.inr ⟨listed, isListed, isFront.trans reaches⟩)

theorem isDirectory_of_below (notEmpty : names ≠ [])
    (isThere : (system.entry? (base ++ names)).isSome) : system.isDirectory base = true := by
  rcases isSome_entry?.mp isThere with isEmpty | ⟨listed, isListed, reaches⟩
  · exact absurd (List.append_eq_nil_iff.mp isEmpty).2 notEmpty
  · have under : base <+: listed.1 := (List.prefix_append base names).trans reaches
    have baseThere := isSome_entry?.mpr (Or.inr ⟨listed, isListed, under⟩)
    rcases Option.isSome_iff_exists.mp baseThere with ⟨entry, isEntry⟩
    rw [isDirectory, isEntry]
    cases entry with
    | directory => rfl
    | file bytes =>
        have same := system.solid _ (mem_of_entry?_eq_file isEntry) rfl listed isListed
          (List.isPrefixOf_iff_prefix.mpr under)
        have tooLong := reaches.length_le
        have positive := List.length_pos_iff.mpr notEmpty
        rw [same, List.length_append] at tooLong
        change base.length + names.length ≤ base.length at tooLong
        omega

/-!
# Following components
-/

theorem follow?_append (location : Location) (components more : List (Path.Component Path.Name)) :
    system.follow? location (components ++ more) =
      (system.follow? location components).bind fun place => system.follow? place more := by
  induction components generalizing location with
  | nil => rfl
  | cons component rest ih =>
      rw [List.cons_append]
      cases component with
      | root =>
          rw [follow?, follow?]
          cases system.isDirectory location with
          | true => exact ih []
          | false => rfl
      | current =>
          rw [follow?, follow?]
          cases system.isDirectory location with
          | true => exact ih location
          | false => rfl
      | parent =>
          rw [follow?, follow?]
          cases system.isDirectory location with
          | true => exact ih location.dropLast
          | false => rfl
      | name text =>
          rw [follow?, follow?]
          cases system.isDirectory location with
          | false => rfl
          | true =>
              cases isThere : (system.entry? (location ++ [text])).isSome with
              | true => simpa [isThere] using ih (location ++ [text])
              | false => simp [isThere]

theorem follow?_eq_none {components : List (Path.Component Path.Name)} (notEmpty : components ≠ [])
    (notDirectory : system.isDirectory location = false) :
    system.follow? location components = none := by
  rcases List.exists_cons_of_ne_nil notEmpty with ⟨component, rest, rfl⟩
  rw [follow?.eq_def, notDirectory]
  exact if_neg Bool.false_ne_true

theorem follow?_name (system : FileSystem) (base : Location) (name : Path.Name) :
    system.follow? base [.name name] =
      if (system.entry? (base ++ [name])).isSome then some (base ++ [name]) else none := by
  by_cases isThere : (system.entry? (base ++ [name])).isSome
  · rw [follow?, isDirectory_of_below (List.cons_ne_nil name []) isThere, if_pos rfl]
    rfl
  · rw [if_neg isThere, follow?]
    simp [isThere]

theorem follow?_names (isThere : (system.entry? (base ++ names)).isSome) :
    system.follow? base (names.map .name) = some (base ++ names) := by
  induction names generalizing base with
  | nil => rw [List.append_nil]; rfl
  | cons name rest ih =>
      have below : base ++ name :: rest = base ++ [name] ++ rest := by
        rw [List.append_assoc]
        rfl
      have nextThere : (system.entry? (base ++ [name])).isSome := by
        rw [below] at isThere
        exact isThere_above isThere (List.prefix_append _ _)
      have first := follow?_name system base name
      rw [if_pos nextThere] at first
      rw [List.map_cons, ← List.singleton_append, follow?_append, first, Option.bind_some, below]
      exact ih (below ▸ isThere)

theorem follow?_cons_congr {component : Path.Component Path.Name}
    {rest other : List (Path.Component Path.Name)}
    (same : ∀ place, system.follow? place rest = system.follow? place other)
    (start : Location) :
    system.follow? start (component :: rest) = system.follow? start (component :: other) := by
  cases component with
  | root => rw [follow?, follow?, same]
  | current => rw [follow?, follow?, same]
  | parent => rw [follow?, follow?, same]
  | name name => simp only [follow?, same]

/-- What follows a dot asks for a directory as well, so the dots in front of it can be left out. -/
theorem follow?_without_current {components more : List (Path.Component Path.Name)}
    (notEmpty : more ≠ []) (start : Location) :
    system.follow? start (components.filter (· ≠ .current) ++ more) =
      system.follow? start (components ++ more) := by
  induction components generalizing start with
  | nil => rfl
  | cons component rest ih =>
      by_cases isCurrent : component = .current
      · rw [isCurrent, List.filter_cons_of_neg (by simp), ih, List.cons_append, follow?]
        cases isDirectory : system.isDirectory start with
        | true => rfl
        | false =>
            rw [follow?_eq_none (List.append_ne_nil_of_right_ne_nil rest notEmpty) isDirectory]
            rfl
      · rw [List.filter_cons_of_pos (by simpa using isCurrent), List.cons_append,
          List.cons_append]
        exact follow?_cons_congr ih start

/-!
# Resolving paths
-/

theorem resolve?_eq_some {path : OsPath} :
    system.resolve? path = some location ↔ path.bytes ≠ [] ∧
      system.follow? [] path.components = some location ∧
      (asksForDirectory path = true -> system.isDirectory location = true) := by
  by_cases isEmpty : path.bytes = []
  · simp [resolve?, isEmpty]
  · rw [resolve?, if_neg isEmpty]
    cases system.follow? [] path.components with
    | none => exact iff_of_false nofun fun given => nomatch given.2.1
    | some place =>
        dsimp only
        split
        · next refused =>
            rw [Bool.and_eq_true, Bool.not_eq_true'] at refused
            refine iff_of_false nofun ?_
            rintro ⟨_, same, allows⟩
            rcases Option.some.inj same with rfl
            exact absurd (allows refused.1) (Bool.eq_false_iff.mp refused.2)
        · next allowed =>
            constructor
            · intro same
              rcases Option.some.inj same with rfl
              exact ⟨isEmpty, rfl, fun asks => by simpa [asks] using allowed⟩
            · intro given
              exact given.2.1

/-- A step that only a directory allows does not notice whether the path asked for a directory. -/
theorem resolve?_bind {α : Type} {path : OsPath} {next : Location -> Option α}
    (notEmpty : path.bytes ≠ [])
    (needs : ∀ location, system.isDirectory location = false -> next location = none) :
    (system.resolve? path).bind next = (system.follow? [] path.components).bind next := by
  rw [resolve?, if_neg notEmpty]
  cases system.follow? [] path.components with
  | none => rfl
  | some location =>
      change (if (asksForDirectory path && !system.isDirectory location) = true then none
        else some location).bind next = next location
      cases isDirectory : system.isDirectory location with
      | true => simp
      | false =>
          rw [needs location isDirectory]
          split
          · rfl
          · exact needs location isDirectory

/-!
# Names behind a path
-/

theorem asksForDirectory_push (path : OsPath) (name : Path.Name) :
    asksForDirectory (path.push name) = false := by
  have spells := name.spells
  have isLast : (Text.splitAt Path.slash (path.push name).bytes).getLast? = some name.bytes := by
    have alone : Text.splitAt Path.slash name.bytes = [name.bytes] :=
      Text.splitAt_of_notMem spells.free
    by_cases isEmpty : path.bytes = []
    · rw [OsPath.push, if_pos (.inl isEmpty), isEmpty, List.nil_append, alone]
      rfl
    · by_cases endsInSlash : path.bytes.getLast? = some Path.slash
      · rcases List.getLast?_eq_some_iff.mp endsInSlash with ⟨front, isPath⟩
        rw [OsPath.push, if_pos (.inr endsInSlash), isPath, List.append_assoc,
          List.singleton_append, Text.splitAt_append_cons, alone, List.getLast?_concat]
      · rw [OsPath.push, if_neg (not_or.mpr ⟨isEmpty, endsInSlash⟩), Text.splitAt_append_cons,
          alone, List.getLast?_concat]
  have notDot : name.bytes ≠ [Path.dot] := spells.ne_dot
  rw [asksForDirectory, isLast]
  split
  · next isNil => exact absurd (Option.some.inj isNil) spells.ne_nil
  · next last isSingle =>
      rw [Option.some.inj isSingle] at notDot
      simpa using notDot
  · rfl

theorem bytes_push_ne_nil (path : OsPath) (name : Path.Name) : (path.push name).bytes ≠ [] := by
  rw [OsPath.push]
  dsimp only
  split_ifs
  · exact List.append_ne_nil_of_right_ne_nil _ name.spells.ne_nil
  · exact List.append_ne_nil_of_right_ne_nil _ (List.cons_ne_nil _ _)

theorem resolve?_push (path : OsPath) (name : Path.Name) :
    system.resolve? (path.push name) = system.follow? [] (path.push name).components := by
  rw [resolve?, if_neg (bytes_push_ne_nil path name), asksForDirectory_push]
  cases system.follow? [] (path.push name).components with
  | none => rfl
  | some location => rfl

theorem resolve?_descend {path : OsPath} (notEmpty : names ≠ []) :
    system.resolve? (names.foldl OsPath.push path) =
      system.follow? [] (path.components ++ names.map .name) := by
  rcases List.eq_nil_or_concat names with isNil | ⟨front, last, isNames⟩
  · exact absurd isNil notEmpty
  · rw [← OsPath.components_descend, isNames, List.concat_eq_append, List.foldl_append]
    exact resolve?_push _ last

/-!
# Below a root
-/

theorem asksForDirectory_slash (root : String) :
    asksForDirectory (.ofText (root ++ "/")) = true := by
  have slashBytes : Text.bytes "/" = [Path.slash] := by decide +kernel
  rw [asksForDirectory, OsPath.ofText, Text.bytes_append, slashBytes,
    Text.splitAt_append_cons]
  have isLast : (Text.splitAt Path.slash (Text.bytes root) ++
      Text.splitAt Path.slash []).getLast? = some [] := List.getLast?_concat
  rw [isLast]

theorem resolve?_slash {root : String}
    (isBase : system.resolve? (.ofText (root ++ "/")) = some base) :
    system.follow? [] (OsPath.ofText (root ++ "/")).components = some base ∧
      system.isDirectory base = true := by
  rcases resolve?_eq_some.mp isBase with ⟨_, follows, allows⟩
  exact ⟨follows, allows (asksForDirectory_slash root)⟩

theorem components_ofText_slash {root : String} (notEmpty : root ≠ "") :
    (OsPath.ofText (root ++ "/")).components = (OsPath.ofText root).components := by
  have slashBytes : Text.bytes "/" = [Path.slash] := by decide +kernel
  rw [OsPath.components, OsPath.ofText, Text.bytes_append, slashBytes]
  exact Path.Script.components_append_slash_nil
    (fun isNil => notEmpty (Text.bytes_eq_nil_iff.mp isNil))

theorem resolve?_of_slash {root : String} (notEmpty : root ≠ "")
    (isBase : system.resolve? (.ofText (root ++ "/")) = some base) :
    system.resolve? (.ofText root) = some base := by
  rcases resolve?_slash isBase with ⟨follows, isDirectory⟩
  refine resolve?_eq_some.mpr ⟨?_, ?_, fun _ => isDirectory⟩
  · exact fun isNil => notEmpty (Text.bytes_eq_nil_iff.mp isNil)
  · rwa [← components_ofText_slash notEmpty]

/-!
# Reading
-/

def textAt? (system : FileSystem) (location : Location) : Option String :=
  (system.entry? location).bind Entry.text?

theorem readText_of_resolve? {path : OsPath} (leads : system.resolve? path = some location) :
    system.readText path =
      match system.textAt? location with
      | some text => .ok text
      | none => .error { path := path.shown } := by
  rw [readText, leads, textAt?, Option.bind_some]
  cases system.entry? location with
  | none => rfl
  | some entry =>
      cases entry with
      | directory => rfl
      | file bytes => rfl

end FileSystem
end CommandWiring
