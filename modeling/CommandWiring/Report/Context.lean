import CommandWiring.Text.Lines

/-!
# Code context

The lines of a command and some lines around it, each behind a marker and, if wanted, its number.
-/

namespace CommandWiring

/-!
# Sums of words

Row numbers are counted in words of sixty-four bits, and a sum that is too large for a word stops
the run.
-/

inductive Panic where
  | overflow
deriving DecidableEq, Repr

/-- A result that is there unless the run stops on the way to it. -/
abbrev Checked (α : Type) :=
  Except Panic α

def wordSize : Nat :=
  UInt64.size

def checkedAdd (first second : Nat) : Checked Nat :=
  if first + second < wordSize then .ok (first + second) else .error .overflow

theorem Panic.eq_overflow (panic : Panic) : panic = .overflow := by
  cases panic
  rfl

/-!
# Options
-/

structure ContextOptions where
  linesBefore : Nat := 2
  linesAfter : Nat := 2
  maxLineLength : Nat := 120
  showLineNumbers : Bool := true
deriving DecidableEq, Repr

namespace CodeContext

/-!
# Clipping

A line of too many bytes is cut at the end of a character and marked by three dots.
-/

/-- The longest beginning of `line` that has at most `limit` bytes. -/
def fitting : Nat -> List Char -> List Char
  | _, [] => []
  | limit, c :: rest =>
      if c.utf8Size ≤ limit then c :: fitting (limit - c.utf8Size) rest else []

def clip (maxLength : Nat) (line : String) : String :=
  if line.utf8ByteSize > maxLength then
    String.ofList (fitting (maxLength - 3) line.toList ++ ['.', '.', '.'])
  else line

/-!
# Rows
-/

def marker (inCommand : Bool) : String :=
  if inCommand then "  ➤ " else "    "

def lineNumber (n : Nat) : String :=
  let digits := (toString n).toList
  String.ofList (List.replicate (3 - digits.length) ' ' ++ digits)

def row (options : ContextOptions) (first last index : Nat) (line : String) : String :=
  let mark := marker (decide (first ≤ index) && decide (index ≤ last))
  let content := clip options.maxLineLength line
  if options.showLineNumbers then mark ++ lineNumber (index + 1) ++ ": " ++ content
  else mark ++ content

/-- The rows from some way before `first` through `bottom`, as far as the text has them. -/
def rows (options : ContextOptions) (text : String) (first last bottom : Nat) : String :=
  let lines := Text.lines text
  let window := (lines.zipIdx.take (min (lines.length - 1) bottom + 1)).drop
    (first - options.linesBefore)
  "\n".intercalate (window.map fun (line, index) => row options first last index line)

/-- The rows around those from `first` to `last`, if there is a row `first`. -/
def around? (options : ContextOptions) (text : String) (first last : Nat) :
    Checked (Option String) :=
  if first < (Text.lines text).length then
    (checkedAdd last options.linesAfter).map fun bottom =>
      some (rows options text first last bottom)
  else
    .ok none

/-!
# When there is a context
-/

variable {options : ContextOptions} {text : String} {first last : Nat}

/-- The sum that gives the last row of the context fits into a word, where there is a context. -/
def Fits (options : ContextOptions) (text : String) (first last : Nat) : Prop :=
  first < (Text.lines text).length -> last + options.linesAfter < wordSize

instance (options : ContextOptions) (text : String) (first last : Nat) :
    Decidable (Fits options text first last) :=
  inferInstanceAs (Decidable (_ -> _))

/-- The context, if sums could be of any size. -/
def unbounded? (options : ContextOptions) (text : String) (first last : Nat) : Option String :=
  if first < (Text.lines text).length then
    some (rows options text first last (last + options.linesAfter))
  else none

theorem around?_of_fits (fits : Fits options text first last) :
    around? options text first last = .ok (unbounded? options text first last) := by
  rw [around?, unbounded?]
  by_cases inside : first < (Text.lines text).length
  · rw [if_pos inside, if_pos inside, checkedAdd, if_pos (fits inside)]
    rfl
  · rw [if_neg inside, if_neg inside]

theorem around?_of_not_fits (exceeds : ¬ Fits options text first last) :
    around? options text first last = .error .overflow := by
  rcases Classical.not_imp.mp exceeds with ⟨inside, tooLarge⟩
  rw [around?, if_pos inside, checkedAdd, if_neg tooLarge]
  rfl

end CodeContext
end CommandWiring
