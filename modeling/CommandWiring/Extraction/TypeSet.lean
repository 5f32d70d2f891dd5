/-!
# Sets of type names

The names of the types that count as commands. A set lists each of its names once, in the order of
code points, so two sets with the same members are equal.
-/

namespace CommandWiring

structure TypeSet where
  names : List String
  ascending : names.Pairwise (· < ·)
deriving DecidableEq

namespace TypeSet

/-!
# Insertion

A name goes before the first name that is greater, and a name already present is not repeated.
-/

def insertName (name : String) : List String -> List String
  | [] => [name]
  | first :: rest =>
      if name < first then name :: first :: rest
      else if name = first then first :: rest
      else first :: insertName name rest

theorem mem_insertName {name other : String} {names : List String} :
    other ∈ insertName name names ↔ other = name ∨ other ∈ names := by
  induction names with
  | nil => simp [insertName]
  | cons first rest ih =>
      unfold insertName
      split
      · simp
      · split
        · rename_i h
          subst h
          simp
        · simp only [List.mem_cons, ih]
          constructor
          · rintro (h | h | h) <;> simp [h]
          · rintro (h | h | h) <;> simp [h]

theorem ascending_insertName {name : String} {names : List String}
    (h : names.Pairwise (· < ·)) : (insertName name names).Pairwise (· < ·) := by
  induction names with
  | nil => simp [insertName]
  | cons first rest ih =>
      have below := (List.pairwise_cons.mp h).1
      unfold insertName
      split
      · rename_i hlt
        refine List.pairwise_cons.mpr ⟨?_, h⟩
        intro other hmem
        rcases List.mem_cons.mp hmem with rfl | hmem
        · exact hlt
        · exact String.lt_trans hlt (below other hmem)
      · split
        · exact h
        · rename_i hlt hne
          refine List.pairwise_cons.mpr ⟨?_, ih (List.Pairwise.of_cons h)⟩
          intro other hmem
          rcases mem_insertName.mp hmem with rfl | hmem
          · exact Std.lt_of_le_of_ne (String.not_lt.mp hlt) (Ne.symm hne)
          · exact below other hmem

def empty : TypeSet where
  names := []
  ascending := List.Pairwise.nil

def insert (set : TypeSet) (name : String) : TypeSet where
  names := insertName name set.names
  ascending := ascending_insertName set.ascending

def ofList (names : List String) : TypeSet :=
  names.foldl insert empty

/-!
# Membership

Membership is equality of names; nothing is known of subtypes or of qualified names.
-/

instance : Membership String TypeSet where
  mem set name := name ∈ set.names

instance (name : String) (set : TypeSet) : Decidable (name ∈ set) :=
  inferInstanceAs (Decidable (name ∈ set.names))

theorem mem_insert {set : TypeSet} {name other : String} :
    other ∈ set.insert name ↔ other = name ∨ other ∈ set :=
  mem_insertName

theorem not_mem_empty {name : String} : ¬ name ∈ empty :=
  List.not_mem_nil

theorem mem_ofList {names : List String} {name : String} :
    name ∈ ofList names ↔ name ∈ names := by
  have general (set : TypeSet) : name ∈ names.foldl insert set ↔ name ∈ names ∨ name ∈ set := by
    induction names generalizing set with
    | nil => simp
    | cons first rest ih =>
        simp only [List.foldl_cons, ih, mem_insert, List.mem_cons]
        constructor
        · rintro (h | h | h) <;> simp [h]
        · rintro ((h | h) | h) <;> simp [h]
  simp [ofList, general, not_mem_empty]

def contains (set : TypeSet) (name : String) : Bool :=
  decide (name ∈ set)

def containsAny (set : TypeSet) (names : List String) : Bool :=
  names.any set.contains

def size (set : TypeSet) : Nat :=
  set.names.length

def isEmpty (set : TypeSet) : Bool :=
  set.names.isEmpty

end TypeSet
end CommandWiring
