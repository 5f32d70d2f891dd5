import CommandWiring.Scan.File
import Mathlib.Data.List.Chain
import Mathlib.Data.List.Sort

/-!
# Resolution of command types

A round takes in declarations one after the other, so how far it gets depends on their order. What
is reached in the end does not: the resolved types are the least set that has the markers and is
closed under the declarations, and its members are the ends of lineages.
-/

namespace CommandWiring
namespace TypeSet

theorem eq_of_mem_iff {first second : TypeSet}
    (same : ∀ name, name ∈ first ↔ name ∈ second) : first = second := by
  rcases first with ⟨names, ascending⟩
  rcases second with ⟨otherNames, otherAscending⟩
  obtain rfl : names = otherNames := ascending.eq_of_mem_iff otherAscending same
  rfl

theorem containsAny_iff {set : TypeSet} {names : List String} :
    set.containsAny names = true ↔ ∃ name ∈ names, name ∈ set := by
  simp [containsAny, contains]

/-!
# One round

A declaration brings in its name if one of its supertypes is known. A round only adds names, and
only names of declarations.
-/

variable {declarations : List TypeDeclaration} {known : TypeSet} {name : String}

theorem mem_extend {declaration : TypeDeclaration} :
    name ∈ known.extend declaration ↔
      name ∈ known ∨
        (name = declaration.name ∧ ∃ supertype ∈ declaration.supertypes, supertype ∈ known) := by
  unfold extend
  split
  · rename_i present
    constructor
    · exact Or.inl
    · intro given
      rcases given with old | ⟨rfl, _⟩
      · exact old
      · exact present
  · split
    · rename_i below
      rw [mem_insert]
      constructor
      · intro given
        rcases given with rfl | old
        · exact Or.inr ⟨rfl, containsAny_iff.mp below⟩
        · exact Or.inl old
      · intro given
        rcases given with old | ⟨rfl, _⟩
        · exact Or.inr old
        · exact Or.inl rfl
    · rename_i notBelow
      constructor
      · exact Or.inl
      · intro given
        rcases given with old | ⟨_, supertype⟩
        · exact old
        · exact absurd (containsAny_iff.mpr supertype) notBelow

theorem mem_extendAll_of_mem (old : name ∈ known) : name ∈ known.extendAll declarations := by
  induction declarations generalizing known with
  | nil => exact old
  | cons first rest ih => exact ih (mem_extend.mpr (Or.inl old))

theorem mem_extendAll_of_supertype {declaration : TypeDeclaration} {supertype : String}
    (declared : declaration ∈ declarations) (listed : supertype ∈ declaration.supertypes)
    (old : supertype ∈ known) : declaration.name ∈ known.extendAll declarations := by
  induction declarations generalizing known with
  | nil => cases declared
  | cons first rest ih =>
      rcases List.mem_cons.mp declared with rfl | declared
      · have taken : declaration.name ∈ known.extend declaration :=
          mem_extend.mpr (Or.inr ⟨rfl, supertype, listed, old⟩)
        show declaration.name ∈ (known.extend declaration).extendAll rest
        exact mem_extendAll_of_mem taken
      · exact ih declared (mem_extend.mpr (Or.inl old))

theorem extendAll_induction {property : String -> Prop}
    (start : ∀ name ∈ known, property name)
    (pass : ∀ declaration ∈ declarations,
      (∃ supertype ∈ declaration.supertypes, property supertype) -> property declaration.name) :
    ∀ name ∈ known.extendAll declarations, property name := by
  induction declarations generalizing known with
  | nil => exact start
  | cons first rest ih =>
      apply ih
      · intro name member
        rcases mem_extend.mp member with old | ⟨rfl, supertype, listed, old⟩
        · exact start name old
        · exact pass first List.mem_cons_self ⟨supertype, listed, start supertype old⟩
      · intro declaration declared
        exact pass declaration (List.mem_cons_of_mem _ declared)

theorem mem_or_declared_of_mem_extendAll (member : name ∈ known.extendAll declarations) :
    name ∈ known ∨ ∃ declaration ∈ declarations, declaration.name = name := by
  have reached : ∀ name ∈ known.extendAll declarations,
      name ∈ known ∨ ∃ declaration ∈ declarations, declaration.name = name := by
    apply extendAll_induction
    · intro name old
      exact Or.inl old
    · intro declaration declared _
      exact Or.inr ⟨declaration, declared, rfl⟩
  exact reached name member

/-!
# Rounds

Each round that changes the set leaves fewer declarations whose names are missing. So as many rounds
as there are declarations are enough.
-/

def missing (declarations : List TypeDeclaration) (known : TypeSet) : List TypeDeclaration :=
  declarations.filter fun declaration => decide (declaration.name ∉ known)

theorem exists_missing_of_extendAll_ne (changed : known.extendAll declarations ≠ known) :
    ∃ declaration ∈ missing declarations known,
      declaration.name ∈ known.extendAll declarations := by
  by_contra none
  apply changed
  apply eq_of_mem_iff
  intro name
  constructor
  · intro member
    rcases mem_or_declared_of_mem_extendAll member with old | ⟨declaration, declared, rfl⟩
    · exact old
    · by_contra new
      exact none ⟨declaration, List.mem_filter.mpr ⟨declared, by simpa using new⟩, member⟩
  · exact mem_extendAll_of_mem

theorem length_missing_lt (changed : known.extendAll declarations ≠ known) :
    (missing declarations (known.extendAll declarations)).length <
      (missing declarations known).length := by
  have sublist : (missing declarations (known.extendAll declarations)).Sublist
      (missing declarations known) := by
    apply List.monotone_filter_right
    intro declaration absent
    have absent : declaration.name ∉ known.extendAll declarations := by simpa using absent
    simpa using fun old => absent (mem_extendAll_of_mem old)
  apply Nat.lt_of_le_of_ne sublist.length_le
  intro sameLength
  rcases exists_missing_of_extendAll_ne changed with ⟨declaration, wasMissing, taken⟩
  rw [← sublist.eq_of_length sameLength] at wasMissing
  have absent := (List.mem_filter.mp wasMissing).2
  exact absurd taken (by simpa using absent)

theorem extendAll_eq_self_of_missing_eq_nil (complete : missing declarations known = []) :
    known.extendAll declarations = known := by
  by_contra changed
  rcases exists_missing_of_extendAll_ne changed with ⟨declaration, wasMissing, _⟩
  rw [complete] at wasMissing
  cases wasMissing

theorem close_succ (rounds : Nat) (declarations : List TypeDeclaration) (known : TypeSet) :
    close (rounds + 1) declarations known =
      if known.extendAll declarations = known then known
      else close rounds declarations (known.extendAll declarations) :=
  rfl

theorem close_eq_iterate (rounds : Nat) (declarations : List TypeDeclaration) (known : TypeSet) :
    ∃ count ≤ rounds,
      close rounds declarations known = (fun set => extendAll set declarations)^[count] known := by
  induction rounds generalizing known with
  | zero => exact ⟨0, Nat.le_refl 0, rfl⟩
  | succ rounds ih =>
      rw [close_succ]
      split
      · exact ⟨0, Nat.zero_le _, rfl⟩
      · rcases ih (known.extendAll declarations) with ⟨count, bound, equal⟩
        refine ⟨count + 1, Nat.succ_le_succ bound, ?_⟩
        rw [equal, Function.iterate_succ_apply]

theorem extendAll_close {rounds : Nat} (enough : (missing declarations known).length ≤ rounds) :
    (close rounds declarations known).extendAll declarations =
      close rounds declarations known := by
  induction rounds generalizing known with
  | zero =>
      apply extendAll_eq_self_of_missing_eq_nil
      exact List.length_eq_zero_iff.mp (Nat.le_zero.mp enough)
  | succ rounds ih =>
      rw [close_succ]
      split
      · assumption
      · rename_i changed
        apply ih
        have := length_missing_lt changed
        omega

theorem mem_close_of_mem {rounds : Nat} (old : name ∈ known) :
    name ∈ close rounds declarations known := by
  induction rounds generalizing known with
  | zero => exact old
  | succ rounds ih =>
      rw [close_succ]
      split
      · exact old
      · exact ih (mem_extendAll_of_mem old)

theorem close_induction {property : String -> Prop} {rounds : Nat}
    (start : ∀ name ∈ known, property name)
    (pass : ∀ declaration ∈ declarations,
      (∃ supertype ∈ declaration.supertypes, property supertype) -> property declaration.name) :
    ∀ name ∈ close rounds declarations known, property name := by
  induction rounds generalizing known with
  | zero => exact start
  | succ rounds ih =>
      rw [close_succ]
      split
      · exact start
      · exact ih (extendAll_induction start pass)

/-!
# The least closed set
-/

variable {markers : List String}

theorem extendAll_resolve :
    (resolve declarations markers).extendAll declarations = resolve declarations markers :=
  extendAll_close (List.length_filter_le _ _)

theorem mem_resolve_of_mem_markers (marked : name ∈ markers) :
    name ∈ resolve declarations markers :=
  mem_close_of_mem (mem_ofList.mpr marked)

theorem mem_resolve_of_supertype {declaration : TypeDeclaration} {supertype : String}
    (declared : declaration ∈ declarations) (listed : supertype ∈ declaration.supertypes)
    (member : supertype ∈ resolve declarations markers) :
    declaration.name ∈ resolve declarations markers := by
  rw [← extendAll_resolve]
  exact mem_extendAll_of_supertype declared listed member

theorem resolve_induction {property : String -> Prop}
    (start : ∀ name ∈ markers, property name)
    (pass : ∀ declaration ∈ declarations,
      (∃ supertype ∈ declaration.supertypes, property supertype) -> property declaration.name) :
    ∀ name ∈ resolve declarations markers, property name :=
  close_induction (fun name member => start name (mem_ofList.mp member)) pass

theorem resolve_subset {moreDeclarations : List TypeDeclaration} {moreMarkers : List String}
    (declared : declarations ⊆ moreDeclarations)
    (marked : ∀ name ∈ markers, name ∈ resolve moreDeclarations moreMarkers) :
    ∀ name ∈ resolve declarations markers, name ∈ resolve moreDeclarations moreMarkers := by
  apply resolve_induction marked
  rintro declaration member ⟨supertype, listed, known⟩
  exact mem_resolve_of_supertype (declared member) listed known

theorem resolve_eq_of_mem_iff {otherDeclarations : List TypeDeclaration}
    {otherMarkers : List String}
    (sameDeclarations : ∀ declaration, declaration ∈ declarations ↔ declaration ∈ otherDeclarations)
    (sameMarkers : ∀ name, name ∈ markers ↔ name ∈ otherMarkers) :
    resolve declarations markers = resolve otherDeclarations otherMarkers := by
  apply eq_of_mem_iff
  intro name
  constructor
  · exact resolve_subset (fun declaration => (sameDeclarations declaration).mp)
      (fun name marked => mem_resolve_of_mem_markers ((sameMarkers name).mp marked)) name
  · exact resolve_subset (fun declaration => (sameDeclarations declaration).mpr)
      (fun name marked => mem_resolve_of_mem_markers ((sameMarkers name).mpr marked)) name

/-!
# Lineages

A lineage goes down from a marker: its first declaration has a marker among its supertypes, each
further one has the name of the one before, and the last one declares the type.
-/

structure IsLineage (declarations : List TypeDeclaration) (markers : List String)
    (lineage : List TypeDeclaration) (name : String) : Prop where
  declared : ∀ declaration ∈ lineage, declaration ∈ declarations
  marked : ∃ first ∈ lineage.head?, ∃ supertype ∈ first.supertypes, supertype ∈ markers
  linked : lineage.IsChain fun above below => above.name ∈ below.supertypes
  ends : ∃ last ∈ lineage.getLast?, last.name = name

theorem IsLineage.single {declaration : TypeDeclaration} {supertype : String}
    (declared : declaration ∈ declarations) (listed : supertype ∈ declaration.supertypes)
    (marked : supertype ∈ markers) :
    IsLineage declarations markers [declaration] declaration.name where
  declared := by
    intro other member
    rw [List.mem_singleton.mp member]
    exact declared
  marked := ⟨declaration, rfl, supertype, listed, marked⟩
  linked := .singleton declaration
  ends := ⟨declaration, rfl, rfl⟩

theorem IsLineage.extend {lineage : List TypeDeclaration} {declaration : TypeDeclaration}
    (above : IsLineage declarations markers lineage name)
    (declared : declaration ∈ declarations) (listed : name ∈ declaration.supertypes) :
    IsLineage declarations markers (lineage ++ [declaration]) declaration.name where
  declared := by
    intro other member
    rcases List.mem_append.mp member with old | new
    · exact above.declared other old
    · rw [List.mem_singleton.mp new]
      exact declared
  marked := by
    rcases above.marked with ⟨first, isFirst, supertype⟩
    refine ⟨first, ?_, supertype⟩
    rw [List.head?_append]
    simp [Option.mem_def.mp isFirst]
  linked := by
    rw [List.isChain_append]
    refine ⟨above.linked, .singleton declaration, ?_⟩
    intro last isLast next isNext
    rcases above.ends with ⟨other, isOther, rfl⟩
    obtain rfl : last = other := Option.some.inj (isLast.symm.trans isOther)
    obtain rfl : declaration = next := by simpa using isNext
    exact listed
  ends := ⟨declaration, by simp, rfl⟩

/-- Along a lineage, each declaration has a supertype in a closed set if the first one has. -/
theorem last_mem_of_linked {set : TypeSet} {first last : TypeDeclaration}
    {lineage : List TypeDeclaration}
    (pass : ∀ declaration ∈ declarations,
      (∃ supertype ∈ declaration.supertypes, supertype ∈ set) -> declaration.name ∈ set)
    (declared : ∀ declaration ∈ first :: lineage, declaration ∈ declarations)
    (linked : (first :: lineage).IsChain fun above below => above.name ∈ below.supertypes)
    (known : ∃ supertype ∈ first.supertypes, supertype ∈ set)
    (isLast : last ∈ (first :: lineage).getLast?) : last.name ∈ set := by
  have taken : first.name ∈ set := pass first (declared first List.mem_cons_self) known
  induction lineage generalizing first with
  | nil =>
      obtain rfl : first = last := by simpa using isLast
      exact taken
  | cons next rest ih =>
      have link := List.isChain_cons_cons.mp linked
      have nextKnown : ∃ supertype ∈ next.supertypes, supertype ∈ set :=
        ⟨first.name, link.1, taken⟩
      have nextDeclared : ∀ declaration ∈ next :: rest, declaration ∈ declarations := by
        intro declaration member
        exact declared declaration (List.mem_cons_of_mem _ member)
      have nextTaken : next.name ∈ set :=
        pass next (nextDeclared next List.mem_cons_self) nextKnown
      exact ih nextDeclared link.2 nextKnown (by simpa using isLast) nextTaken

theorem IsLineage.end_mem {set : TypeSet} {lineage : List TypeDeclaration}
    (isLineage : IsLineage declarations markers lineage name)
    (start : ∀ name ∈ markers, name ∈ set)
    (pass : ∀ declaration ∈ declarations,
      (∃ supertype ∈ declaration.supertypes, supertype ∈ set) -> declaration.name ∈ set) :
    name ∈ set := by
  rcases isLineage with
    ⟨declared, ⟨first, isFirst, supertype, listed, marked⟩, linked, last, isLast, rfl⟩
  cases lineage with
  | nil => cases isFirst
  | cons head rest =>
      obtain rfl : head = first := Option.some.inj isFirst
      exact last_mem_of_linked pass declared linked ⟨supertype, listed, start supertype marked⟩
        isLast

theorem mem_resolve_iff_lineage :
    name ∈ resolve declarations markers ↔
      name ∈ markers ∨ ∃ lineage, IsLineage declarations markers lineage name := by
  constructor
  · intro member
    have reached : ∀ name ∈ resolve declarations markers,
        name ∈ markers ∨ ∃ lineage, IsLineage declarations markers lineage name := by
      apply resolve_induction
      · intro name marked
        exact Or.inl marked
      · rintro declaration declared ⟨supertype, listed, marked | ⟨lineage, above⟩⟩
        · exact Or.inr ⟨[declaration], IsLineage.single declared listed marked⟩
        · exact Or.inr ⟨lineage ++ [declaration], above.extend declared listed⟩
    exact reached name member
  · intro given
    rcases given with marked | ⟨lineage, isLineage⟩
    · exact mem_resolve_of_mem_markers marked
    · apply isLineage.end_mem
      · intro name marked
        exact mem_resolve_of_mem_markers marked
      · rintro declaration declared ⟨supertype, listed, member⟩
        exact mem_resolve_of_supertype declared listed member

/-!
# The resolved types of files
-/

theorem commandTypes_eq_of_perm {parser : Java.Parser} {options : ScanOptions}
    {files others : List SourceFile} (permuted : files.Perm others) :
    (Scan.commandTypes parser options files).value =
      (Scan.commandTypes parser options others).value := by
  apply resolve_eq_of_mem_iff
  · intro declaration
    exact ((permuted.map _).map _).flatten.mem_iff
  · intro name
    exact Iff.rfl

/-- Resolution comes to an end where a further round changes nothing, and what it gives is the least
closed set: it does not depend on the order or on repetitions, it grows with its arguments, and
resolving it again changes nothing. -/
structure ResolvesLeast (declarations : List TypeDeclaration) (markers : List String) : Prop where
  ends : ∃ rounds ≤ declarations.length,
    resolve declarations markers =
      (fun set => extendAll set declarations)^[rounds] (ofList markers)
  closed : (resolve declarations markers).extendAll declarations = resolve declarations markers
  mem_iff : ∀ name, name ∈ resolve declarations markers ↔
    name ∈ markers ∨ ∃ lineage, IsLineage declarations markers lineage name
  unordered : ∀ otherDeclarations otherMarkers,
    (∀ declaration, declaration ∈ declarations ↔ declaration ∈ otherDeclarations) ->
    (∀ name, name ∈ markers ↔ name ∈ otherMarkers) ->
    resolve declarations markers = resolve otherDeclarations otherMarkers
  monotone : ∀ moreDeclarations moreMarkers, declarations ⊆ moreDeclarations ->
    markers ⊆ moreMarkers ->
    ∀ name ∈ resolve declarations markers, name ∈ resolve moreDeclarations moreMarkers
  idempotent :
    resolve declarations (resolve declarations markers).names = resolve declarations markers

theorem resolvesLeast (declarations : List TypeDeclaration) (markers : List String) :
    ResolvesLeast declarations markers where
  ends := close_eq_iterate _ _ _
  closed := extendAll_resolve
  mem_iff _ := mem_resolve_iff_lineage
  unordered _ _ := resolve_eq_of_mem_iff
  monotone _ _ declared marked :=
    resolve_subset declared fun _ member => mem_resolve_of_mem_markers (marked member)
  idempotent := by
    apply eq_of_mem_iff
    intro name
    constructor
    · exact resolve_subset (fun _ declared => declared) (fun _ member => member) name
    · exact mem_resolve_of_mem_markers

/-- The least closed set is resolved, and the order of the files does not matter to what is resolved
from them. -/
theorem resolve_least_closed :
    (∀ declarations markers, ResolvesLeast declarations markers) ∧
    ∀ parser options files others, files.Perm others ->
      (Scan.commandTypes parser options files).value =
        (Scan.commandTypes parser options others).value :=
  ⟨resolvesLeast, fun _ _ _ _ => commandTypes_eq_of_perm⟩

end TypeSet
end CommandWiring
