import CommandWiring.Path.Ignore
import CommandWiring.Proofs.TextLines
import Mathlib.Data.List.Infix

/-!
# Directory patterns

A pattern with a slash at its end should ignore what is below a directory, and the names in the
pattern should be names of directories, one right below the other. But the pattern is compared as
one name with the segments of a path. So a pattern of several names ignores nothing, and a pattern
of one name also ignores a file of that name.
-/

namespace CommandWiring
namespace Path

open Text (splitAt IsSplit exists_isSplit separator_notMem_of_mem_splitAt)

variable {path directory : String} {text name last : List Char}

/-!
# Segments
-/

def segments (path : String) : List (List Char) :=
  splitAt '/' (slashed path).toList

/-- The names on a path but for the last one, which is the name of what the path leads to. -/
def directories (path : String) : List (List Char) :=
  (segments path).dropLast

theorem splitAt_eq_singleton_iff : splitAt '/' text = [name] ↔ name = text ∧ '/' ∉ text := by
  constructor
  · intro isSingle
    have member : name ∈ splitAt '/' text := by
      rw [isSingle]
      exact List.mem_singleton_self name
    have free := separator_notMem_of_mem_splitAt member
    rcases exists_isSplit '/' text with ⟨ended, last, split⟩
    rcases List.append_eq_singleton_iff.mp (split.parts.symm.trans isSingle) with
      ⟨rfl, isLast⟩ | ⟨_, isNil⟩
    · have whole : text = last := split.whole
      rw [whole, List.singleton_inj.mp isLast]
      exact ⟨rfl, free⟩
    · cases isNil
  · rintro ⟨rfl, free⟩
    have single : splitAt '/' (['/'].intercalate [name]) = [name] :=
      Text.splitAt_intercalate (List.forall_mem_singleton.mpr free) (List.cons_ne_nil name [])
    rwa [List.intercalate_singleton] at single

theorem segments_eq (path : String) : ∃ name, segments path = directories path ++ [name] := by
  rcases exists_isSplit '/' (slashed path).toList with ⟨ended, last, split⟩
  refine ⟨last, ?_⟩
  rw [directories, segments, split.parts, List.dropLast_concat]

/-!
# Patterns
-/

theorem ofChars_directory (directory : String) :
    IgnorePattern.ofChars (directory ++ "/").toList = .segment directory.toList := by
  have chars : (directory ++ "/").toList = directory.toList ++ ['/'] := String.toList_append
  rw [chars, IgnorePattern.ofChars.eq_def, List.getLast?_concat, if_pos rfl, List.dropLast_concat]

theorem isIgnored_directory :
    isIgnored [directory ++ "/"] path = true ↔ directory.toList ∈ segments path := by
  rw [isIgnored, List.any_cons, List.any_nil, Bool.or_false, ofChars_directory]
  exact List.contains_iff_mem

theorem isIgnored_directory_iff_exists :
    isIgnored [directory ++ "/"] path = true ↔
      ∃ name ∈ segments path, splitAt '/' directory.toList = [name] := by
  rw [isIgnored_directory]
  simp only [splitAt_eq_singleton_iff]
  constructor
  · intro member
    exact ⟨_, member, rfl, separator_notMem_of_mem_splitAt member⟩
  · rintro ⟨_, member, rfl, _⟩
    exact member

/-- One name is on a path exactly if it is among the directories, unless it is only the last. -/
theorem mem_segments_iff_infix (isPath : segments path = directories path ++ [last]) :
    (name ∈ segments path ↔ [name] <:+: directories path) ↔
      (name = last -> name ∈ directories path) := by
  rw [isPath, List.mem_append, List.mem_singleton, List.singleton_infix_iff]
  constructor
  · intro same isLast
    exact same.mp (.inr isLast)
  · intro given
    exact ⟨fun onPath => onPath.elim id given, .inl⟩

/-- A pattern `directory/` ignores a path exactly if the pattern is one name and the name is on the
path. So the pattern does what it should, which is to ignore the paths with its names next to each
other among their directories, exactly if two cases are left out: it is one name, which is only the
last name on the path; or it has several names, which are next to each other among the directories.
-/
theorem isIgnored_directory_iff (path directory : String) :
    let wanted := splitAt '/' directory.toList
    (isIgnored [directory ++ "/"] path = true ↔ ∃ name ∈ segments path, wanted = [name]) ∧
      ((isIgnored [directory ++ "/"] path = true ↔ wanted <:+: directories path) ↔
        (∀ name, wanted = [name] -> (segments path).getLast? = some name ->
          name ∈ directories path) ∧
        (1 < wanted.length -> ¬ wanted <:+: directories path)) := by
  intro wanted
  have ignores : isIgnored [directory ++ "/"] path = true ↔
      ∃ name ∈ segments path, wanted = [name] := isIgnored_directory_iff_exists
  refine ⟨ignores, ?_⟩
  rcases segments_eq path with ⟨last, isPath⟩
  have isLast : (segments path).getLast? = some last := by rw [isPath, List.getLast?_concat]
  rw [ignores, isLast]
  rcases exists_isSplit '/' directory.toList with ⟨ended, final, split⟩
  have parts : wanted = ended ++ [final] := split.parts
  cases ended with
  | nil =>
      have isOne : wanted = [final] := parts
      rw [isOne]
      have isName : (∃ name ∈ segments path, [final] = [name]) ↔ final ∈ segments path := by simp
      rw [isName, mem_segments_iff_infix isPath]
      simp [eq_comm]
  | cons first more =>
      have several : 1 < wanted.length := by simp [parts]
      have notOne (name : List Char) : wanted ≠ [name] := by
        intro isOne
        simp [isOne] at several
      simp [notOne, several]

/-- The pattern `src/gen/` leaves a file below that directory, and `A.java/` ignores a mere file. -/
theorem directory_patterns_miss :
    ¬ (isIgnored ["src/gen" ++ "/"] "src/gen/A.java" = true ↔
        splitAt '/' "src/gen".toList <:+: directories "src/gen/A.java") ∧
      ¬ (isIgnored ["A.java" ++ "/"] "src/A.java" = true ↔
        splitAt '/' "A.java".toList <:+: directories "src/A.java") := by
  constructor
  · decide +kernel
  · decide +kernel

end Path
end CommandWiring
