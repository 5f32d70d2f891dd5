import CommandWiring.Proofs.TextLines
import CommandWiring.Report.Context
import Mathlib.Data.List.Forall2

/-!
# The rows of a context

A context shows the rows from some way before a command to some way behind it, as far as the text
has them. Its upper end is found by subtraction, which stops at the first row. Its lower end is
found by adding words, and a sum of words that is too large stops the run.
-/

namespace CommandWiring
namespace CodeContext

open Java (utf8Length utf8Length_append utf8Length_cons utf8ByteSize_ofList)

/-!
# Clipped lines
-/

theorem fitting_prefix (limit : Nat) (line : List Char) : fitting limit line <+: line := by
  induction line generalizing limit with
  | nil => exact List.prefix_refl []
  | cons c rest ih =>
      rw [fitting]
      split
      · exact List.cons_prefix_cons.mpr ⟨rfl, ih _⟩
      · exact List.nil_prefix

theorem utf8Length_fitting_le (limit : Nat) (line : List Char) :
    utf8Length (fitting limit line) ≤ limit := by
  induction line generalizing limit with
  | nil => exact Nat.zero_le limit
  | cons c rest ih =>
      rw [fitting]
      split
      · have := ih (limit - c.utf8Size)
        rw [utf8Length_cons]
        omega
      · exact Nat.zero_le limit

/-- What fits is longest: every beginning that has few enough bytes is a part of it. -/
theorem prefix_fitting {limit : Nat} {part line : List Char} (isPart : part <+: line)
    (fits : utf8Length part ≤ limit) : part <+: fitting limit line := by
  induction line generalizing limit part with
  | nil => exact isPart
  | cons c rest ih =>
      cases part with
      | nil => exact List.nil_prefix
      | cons d more =>
          rcases List.cons_prefix_cons.mp isPart with ⟨rfl, isMore⟩
          rw [utf8Length_cons] at fits
          rw [fitting, if_pos (by omega)]
          exact List.cons_prefix_cons.mpr ⟨rfl, ih isMore (by omega)⟩

/-- `shown` is `line` if it has at most `limit` bytes, and else the longest beginning of it that
leaves room for three dots, with the dots behind it. -/
structure IsClipping (limit : Nat) (line shown : String) : Prop where
  whole : line.utf8ByteSize ≤ limit -> shown = line
  cut : limit < line.utf8ByteSize -> ∃ front : String, shown = front ++ "..." ∧
    front.toList <+: line.toList ∧ front.utf8ByteSize ≤ limit - 3 ∧
    ∀ other : String, other.toList <+: line.toList -> other.utf8ByteSize ≤ limit - 3 ->
      other.toList <+: front.toList
  size_le : shown.utf8ByteSize ≤ max 3 limit

theorem isClipping_clip (limit : Nat) (line : String) :
    IsClipping limit line (clip limit line) := by
  by_cases long : line.utf8ByteSize > limit
  · let front := String.ofList (fitting (limit - 3) line.toList)
    have isCut : clip limit line = front ++ "..." := by
      rw [clip, if_pos long, String.ofList_append]
    have frontSize : front.utf8ByteSize ≤ limit - 3 := by
      rw [utf8ByteSize_ofList]
      exact utf8Length_fitting_le _ _
    refine ⟨fun short => absurd short (Nat.not_le_of_gt long), fun _ => ?_, ?_⟩
    · refine ⟨front, isCut, ?_, frontSize, ?_⟩
      · rw [String.toList_ofList]
        exact fitting_prefix _ _
      · intro other isPart fits
        rw [String.toList_ofList]
        exact prefix_fitting isPart (Text.utf8Length_toList other ▸ fits)
    · have dots : ("..." : String).utf8ByteSize = 3 := by decide
      rw [isCut, String.utf8ByteSize_append, dots]
      omega
  · have isWhole : clip limit line = line := by rw [clip, if_neg long]
    refine ⟨fun _ => isWhole, fun other => absurd other long, ?_⟩
    rw [isWhole]
    omega

theorem IsClipping.lineFeed_notMem {limit : Nat} {line shown : String}
    (clipping : IsClipping limit line shown) (free : '\n' ∉ line.toList) : '\n' ∉ shown.toList := by
  rcases Nat.lt_or_ge limit line.utf8ByteSize with long | short
  · rcases clipping.cut long with ⟨front, rfl, isPart, _⟩
    have dots : '\n' ∉ ("..." : String).toList := by decide
    rw [String.toList_append, List.mem_append, not_or]
    exact ⟨fun inside => free (isPart.subset inside), dots⟩
  · rwa [clipping.whole short]

/-!
# Rows
-/

def IsNumbering (n : Nat) (shown : String) : Prop :=
  ∃ blanks : List Char, (∀ c ∈ blanks, c = ' ') ∧ blanks.length = 3 - (toString n).length ∧
    shown = String.ofList blanks ++ toString n ++ ": "

/-- `shown` shows `line` as the row `index`, if the rows from `first` through `last` are marked. -/
structure Shows (options : ContextOptions) (first last index : Nat) (line shown : String) :
    Prop where
  parts : ∃ mark number content : String, shown = mark ++ number ++ content ∧
    mark = (if first ≤ index ∧ index ≤ last then "  ➤ " else "    ") ∧
    (if options.showLineNumbers then IsNumbering (index + 1) number else number = "") ∧
    IsClipping options.maxLineLength line content

theorem isNumbering_lineNumber (n : Nat) : IsNumbering n (lineNumber n ++ ": ") := by
  refine ⟨List.replicate (3 - (toString n).toList.length) ' ', ?_, ?_, ?_⟩
  · exact fun c member => List.eq_of_mem_replicate member
  · rw [List.length_replicate, String.length_toList]
  · rw [lineNumber, String.ofList_append, String.ofList_toList]

variable {options : ContextOptions} {text : String} {first last index : Nat} {line shown : String}

theorem shows_row (options : ContextOptions) (first last index : Nat) (line : String) :
    Shows options first last index line (row options first last index line) where
  parts := by
    have isMark : marker (decide (first ≤ index) && decide (index ≤ last)) =
        if first ≤ index ∧ index ≤ last then "  ➤ " else "    " := by
      rw [marker, ← Bool.decide_and]
      simp only [decide_eq_true_eq]
    have clipped := isClipping_clip options.maxLineLength line
    rw [row, ← isMark]
    split
    · refine ⟨_, lineNumber (index + 1) ++ ": ", _, ?_, rfl, ?_, clipped⟩
      · rw [← String.append_assoc]
      · exact isNumbering_lineNumber (index + 1)
    · refine ⟨_, "", _, ?_, rfl, rfl, clipped⟩
      rw [String.append_empty]

theorem lineFeed_notMem_of_isNumbering {n : Nat} (numbering : IsNumbering n shown) :
    '\n' ∉ shown.toList := by
  rcases numbering with ⟨blanks, areBlank, _, rfl⟩
  have colon : '\n' ∉ (": " : String).toList := by decide
  rw [String.toList_append, String.toList_append, String.toList_ofList]
  intro member
  rcases List.mem_append.mp member with inFront | inColon
  · rcases List.mem_append.mp inFront with inBlanks | inNumeral
    · exact absurd (areBlank _ inBlanks) (by decide)
    · exact absurd (Text.isDigit_of_mem_toString inNumeral) (by decide)
  · exact colon inColon

theorem Shows.lineFeed_notMem (isShown : Shows options first last index line shown)
    (free : '\n' ∉ line.toList) : '\n' ∉ shown.toList := by
  rcases isShown.parts with ⟨mark, number, content, rfl, isMark, isNumber, isContent⟩
  have inMark : '\n' ∉ mark.toList := by
    rw [isMark]
    split <;> decide
  have inNumber : '\n' ∉ number.toList := by
    split at isNumber
    · exact lineFeed_notMem_of_isNumbering isNumber
    · rw [isNumber]
      decide
  rw [String.toList_append, String.toList_append]
  simp only [List.mem_append, not_or]
  exact ⟨⟨inMark, inNumber⟩, isContent.lineFeed_notMem free⟩

/-!
# The window
-/

/-- The rows from `top` through `bottom`. -/
def rowsThrough (top bottom : Nat) : List Nat :=
  List.range' top (bottom + 1 - top)

theorem mem_rowsThrough {top bottom : Nat} :
    index ∈ rowsThrough top bottom ↔ top ≤ index ∧ index ≤ bottom := by
  rw [rowsThrough, List.mem_range'_1]
  omega

/-- The rows that a context shows of a text of `count` lines. -/
def window (options : ContextOptions) (count first last : Nat) : List Nat :=
  rowsThrough (first - options.linesBefore)
    (min (count - 1) (last + options.linesAfter))

theorem forall₂_rowsThrough {lines : List String} {top bottom : Nat}
    (inside : bottom < lines.length) :
    List.Forall₂ (fun index numbered => lines[index]? = some numbered.1 ∧ numbered.2 = index)
      (rowsThrough top bottom) ((lines.zipIdx.take (bottom + 1)).drop top) := by
  rw [List.forall₂_iff_get]
  refine ⟨?_, ?_⟩
  · simp only [rowsThrough, List.length_range', List.length_drop, List.length_take,
      List.length_zipIdx]
    omega
  · intro place inRows inLines
    simp only [List.get_eq_getElem, rowsThrough, List.getElem_range', List.getElem_drop,
      List.getElem_take, List.getElem_zipIdx, Nat.one_mul, Nat.zero_add]
    exact ⟨List.getElem?_eq_getElem _, trivial⟩

/-- What is shown of the row `index` of `text`. -/
def ShowsRow (options : ContextOptions) (text : String) (first last index : Nat) (shown : String) :
    Prop :=
  ∃ line, (Text.lines text)[index]? = some line ∧ Shows options first last index line shown

theorem unbounded?_eq_none_iff :
    unbounded? options text first last = none ↔ (Text.lines text).length ≤ first := by
  rw [unbounded?]
  split <;> simp <;> omega

theorem unbounded?_eq_some (options : ContextOptions) (last : Nat)
    (inside : first < (Text.lines text).length) :
    ∃ shown, unbounded? options text first last = some ("\n".intercalate shown) ∧
      List.Forall₂ (ShowsRow options text first last)
        (window options (Text.lines text).length first last) shown := by
  have bottomInside : min ((Text.lines text).length - 1) (last + options.linesAfter) <
      (Text.lines text).length := by omega
  refine ⟨_, if_pos inside, ?_⟩
  rw [List.forall₂_map_right_iff]
  refine (forall₂_rowsThrough bottomInside).imp ?_
  rintro index ⟨line, number⟩ ⟨isLine, rfl⟩
  exact ⟨line, isLine, shows_row options first last _ line⟩

theorem around?_eq_overflow_iff (inside : first < (Text.lines text).length) :
    around? options text first last = .error .overflow ↔ wordSize ≤ last + options.linesAfter := by
  by_cases fits : last + options.linesAfter < wordSize
  · rw [around?_of_fits fun _ => fits]
    exact iff_of_false nofun (Nat.not_le_of_gt fits)
  · rw [around?_of_not_fits fun given => fits (given inside)]
    exact iff_of_true rfl (Nat.le_of_not_lt fits)

theorem lineFeed_notMem_of_showsRow (isRow : ShowsRow options text first last index shown) :
    '\n' ∉ shown.toList := by
  rcases isRow with ⟨line, isLine, isShown⟩
  exact isShown.lineFeed_notMem
    (Text.lineFeed_notMem_of_mem_lines (List.mem_of_getElem? isLine))

theorem lineFeed_notMem_of_forall₂ {indices : List Nat} {rows : List String}
    (areShown : List.Forall₂ (ShowsRow options text first last) indices rows) :
    ∀ part ∈ rows.map String.toList, '\n' ∉ part := by
  induction areShown with
  | nil => nofun
  | cons isRow _ ih => exact List.forall_mem_cons.mpr ⟨lineFeed_notMem_of_showsRow isRow, ih⟩

theorem parts_intercalate {indices : List Nat} {rows : List String}
    (areShown : List.Forall₂ (ShowsRow options text first last) indices rows)
    (nonempty : indices ≠ []) :
    (Text.splitAt '\n' ("\n".intercalate rows).toList).map String.ofList = rows := by
  have some : rows.map String.toList ≠ [] := by
    intro isEmpty
    rw [List.map_eq_nil_iff.mp isEmpty] at areShown
    exact nonempty (List.forall₂_nil_right_iff.mp areShown)
  have isText : ("\n".intercalate rows).toList = ['\n'].intercalate (rows.map String.toList) :=
    String.toList_intercalate
  rw [isText, Text.splitAt_intercalate (lineFeed_notMem_of_forall₂ areShown) some, List.map_map]
  simp

/-- A context shows all rows from `linesBefore` rows before a command to `linesAfter` rows behind it
that the text has, if the sum of the lower end fits into a word. The rows of the command are marked,
each row has its number if numbers are wanted, and a line that is too long is cut. There is no
context exactly if the text has no first row of the command. -/
theorem around?_is_window (options : ContextOptions) (text : String) {first last : Nat}
    (ordered : first ≤ last) (fits : last + options.linesAfter < wordSize) :
    let lines := Text.lines text
    (around? options text first last = .ok none ↔ lines.length ≤ first) ∧
      (first < lines.length -> ∃ context, around? options text first last = .ok (some context) ∧
        List.Forall₂ (ShowsRow options text first last)
          (rowsThrough (first - options.linesBefore)
            (min (lines.length - 1) (last + options.linesAfter)))
          ((Text.splitAt '\n' context.toList).map String.ofList)) := by
  intro lines
  rw [around?_of_fits fun _ => fits, Except.ok.injEq]
  refine ⟨unbounded?_eq_none_iff, fun inside => ?_⟩
  rcases unbounded?_eq_some options last inside with ⟨rows, isContext, areShown⟩
  refine ⟨_, congrArg Except.ok isContext, ?_⟩
  have hasFirst : first ∈ window options lines.length first last := by
    rw [window, mem_rowsThrough]
    omega
  rw [parts_intercalate areShown (List.ne_nil_of_mem hasFirst)]
  exact areShown

theorem around?_is_window_cut_line :
    let options : ContextOptions := { linesBefore := 1, linesAfter := 9, maxLineLength := 7 }
    let text := "a\r\nb\r\ncéééé\nd"
    2 ≤ 2 ∧ 2 + options.linesAfter < wordSize ∧
      ∃ context, around? options text 2 2 = .ok (some context) ∧
        context = "      2: b\n  ➤   3: cé...\n      4: d" ∧
        List.Forall₂ (ShowsRow options text 2 2) [1, 2, 3]
          ((Text.splitAt '\n' context.toList).map String.ofList) := by
  intro options text
  have fits : 2 + options.linesAfter < wordSize := by decide
  have inside : 2 < (Text.lines text).length := by decide +kernel
  rcases (around?_is_window options text (Nat.le_refl 2) fits).2 inside with
    ⟨context, isContext, areShown⟩
  have isText : around? options text 2 2 =
      .ok (some "      2: b\n  ➤   3: cé...\n      4: d") := by
    rw [around?_of_fits fun _ => fits]
    exact congrArg Except.ok (by decide +kernel)
  have indices : rowsThrough (2 - options.linesBefore)
      (min ((Text.lines text).length - 1) (2 + options.linesAfter)) = [1, 2, 3] := by
    decide +kernel
  rw [indices] at areShown
  exact ⟨Nat.le_refl 2, fits, context, isContext,
    Option.some.inj (Except.ok.inj (isContext.symm.trans isText)), areShown⟩

/-!
# Sums that are too large
-/

/-- The sums that are formed to find the lower end of a context and to number its rows. -/
def sums (options : ContextOptions) (count first last : Nat) : List Nat :=
  [last + options.linesAfter, min (count - 1) (last + options.linesAfter) + 1] ++
    (window options count first last).map (· + 1)

variable {count : Nat}

/-- Only the sum for the lower end can be too large. -/
theorem sums_fit (inside : first < count) (small : count < wordSize)
    (fits : last + options.linesAfter < wordSize) :
    ∀ sum ∈ sums options count first last, sum < wordSize := by
  intro sum member
  rcases List.mem_append.mp member with isEnd | isNumber
  · simp only [List.mem_cons, List.not_mem_nil, or_false] at isEnd
    rcases isEnd with rfl | rfl
    · exact fits
    · omega
  · rcases List.mem_map.mp isNumber with ⟨index, shown, rfl⟩
    rw [window, mem_rowsThrough] at shown
    omega

/-- The context shows the rows of the window, among them all rows of the command that the text has,
and is found without a sum that is too large. -/
structure ShowsCommand (options : ContextOptions) (text : String) (first last : Nat)
    (context : String) : Prop where
  rows : ∃ rows, context = "\n".intercalate rows ∧
    List.Forall₂ (ShowsRow options text first last)
      (window options (Text.lines text).length first last) rows
  command : ∀ index, first ≤ index -> index ≤ last -> index < (Text.lines text).length ->
    index ∈ window options (Text.lines text).length first last
  sumsFit : ∀ sum ∈ sums options (Text.lines text).length first last, sum < wordSize

/-- The one sum that can be too large is that of the last row of the command and `linesAfter`. If it
is, the run stops. If it is not, then the context shows all rows of the command that the text has.
-/
theorem command_shown_iff (options : ContextOptions) (text : String) {first last : Nat}
    (inside : first < (Text.lines text).length) (textFits : text.utf8ByteSize < wordSize) :
    (around? options text first last = .error .overflow ↔
        wordSize ≤ last + options.linesAfter) ∧
      ∀ context?, around? options text first last = .ok context? ->
        ∃ context, context? = some context ∧ ShowsCommand options text first last context := by
  refine ⟨around?_eq_overflow_iff inside, ?_⟩
  intro context? isContext
  have fits : last + options.linesAfter < wordSize := by
    by_contra exceeds
    rw [(around?_eq_overflow_iff inside).mpr (Nat.le_of_not_lt exceeds)] at isContext
    cases isContext
  rw [around?_of_fits fun _ => fits] at isContext
  rcases unbounded?_eq_some options last inside with ⟨rows, isShown, areShown⟩
  rw [isShown] at isContext
  refine ⟨_, (Except.ok.inj isContext).symm, ⟨rows, rfl, areShown⟩, ?_, ?_⟩
  · intro index lower upper within
    rw [window, mem_rowsThrough]
    omega
  · exact sums_fit inside (Nat.lt_of_le_of_lt (Text.length_lines_le text) textFits) fits

theorem command_shown_iff_at_largest_sum :
    let options : ContextOptions := { linesAfter := wordSize - 2 }
    let text := "a\nb"
    1 < (Text.lines text).length ∧ text.utf8ByteSize < wordSize ∧
      ∃ context, around? options text 1 1 = .ok (some context) ∧
        ShowsCommand options text 1 1 context := by
  intro options text
  have inside : 1 < (Text.lines text).length := by decide +kernel
  have textFits : text.utf8ByteSize < wordSize := by decide
  rcases command_shown_iff options text inside textFits with ⟨_, shows⟩
  have returned : around? options text 1 1 = .ok (unbounded? options text 1 1) :=
    around?_of_fits fun _ => by decide
  rcases shows _ returned with ⟨context, isSome, isShown⟩
  rw [isSome] at returned
  exact ⟨inside, textFits, context, returned, isShown⟩

/-- With the largest `linesAfter` the row `b` has no context. -/
theorem overflow_stops_context :
    ¬ ∀ (options : ContextOptions) (text : String) (first last : Nat),
      options.linesBefore < wordSize -> options.linesAfter < wordSize ->
      options.maxLineLength < wordSize -> first ≤ last -> last < wordSize ->
      text.utf8ByteSize < wordSize -> first < (Text.lines text).length ->
        ∃ context, around? options text first last = .ok (some context) ∧
          ShowsCommand options text first last context := by
  intro shown
  have inside : 1 < (Text.lines "a\nb").length := by decide +kernel
  rcases shown { linesAfter := wordSize - 1 } "a\nb" 1 1 (by decide) (by decide) (by decide)
    (Nat.le_refl 1) (by decide) (by decide) inside with ⟨context, isContext, _⟩
  rw [(around?_eq_overflow_iff inside).mpr (by decide)] at isContext
  cases isContext

/-!
# Marked rows
-/

def isMarked (row : List Char) : Bool :=
  "  ➤ ".toList.isPrefixOf row

theorem isMarked_iff_of_showsRow (isRow : ShowsRow options text first last index shown) :
    isMarked shown.toList = true ↔ first ≤ index ∧ index ≤ last := by
  rcases isRow with ⟨line, _, mark, number, content, rfl, isMark, _⟩
  rw [isMarked, List.isPrefixOf_iff_prefix, String.toList_append, String.toList_append,
    List.append_assoc, isMark]
  split
  · next inside => exact iff_of_true (List.prefix_append _ _) inside
  · next outside =>
      refine iff_of_false ?_ outside
      intro isPrefix
      have third := (List.cons_prefix_cons.mp (List.cons_prefix_cons.mp isPrefix).2).2
      exact absurd (List.cons_prefix_cons.mp third).1 (by decide)

theorem countP_isMarked {indices : List Nat} {rows : List String}
    (areShown : List.Forall₂ (ShowsRow options text first last) indices rows) :
    (rows.countP fun row => isMarked row.toList) =
      indices.countP fun index => decide (first ≤ index ∧ index ≤ last) := by
  induction areShown with
  | nil => rfl
  | cons isRow _ ih =>
      have same := isMarked_iff_of_showsRow isRow
      rw [← decide_eq_true_iff (p := _ ∧ _), ← Bool.eq_iff_iff] at same
      rw [List.countP_cons, List.countP_cons, ih, same]

theorem countP_rowsThrough {top bottom : Nat} (above : top ≤ first) (below : last ≤ bottom) :
    ((rowsThrough top bottom).countP fun index => decide (first ≤ index ∧ index ≤ last)) =
      last + 1 - first := by
  have once (top bottom : Nat) : (rowsThrough top bottom).Nodup := List.nodup_range'
  have same : ((rowsThrough top bottom).filter fun index =>
      decide (first ≤ index ∧ index ≤ last)).Perm (rowsThrough first last) := by
    refine (List.perm_ext_iff_of_nodup ((once top bottom).filter _) (once first last)).mpr ?_
    intro index
    rw [List.mem_filter, decide_eq_true_eq, mem_rowsThrough, mem_rowsThrough]
    omega
  rw [List.countP_eq_length_filter, same.length_eq, rowsThrough, List.length_range']

theorem exists_context (options : ContextOptions) (ordered : first ≤ last)
    (inside : last < (Text.lines text).length) :
    ∃ context, unbounded? options text first last = some context ∧
      (Text.splitAt '\n' context.toList).countP isMarked = last + 1 - first := by
  have firstInside := Nat.lt_of_le_of_lt ordered inside
  rcases unbounded?_eq_some options last firstInside with ⟨rows, isContext, areShown⟩
  have some : window options (Text.lines text).length first last ≠ [] := by
    refine List.ne_nil_of_mem (a := first) ?_
    rw [window, mem_rowsThrough]
    omega
  refine ⟨_, isContext, ?_⟩
  have counted := countP_isMarked areShown
  rw [window, countP_rowsThrough (by omega) (by omega)] at counted
  have told := congrArg (List.countP fun row => isMarked row.toList)
    (parts_intercalate areShown some)
  rw [List.countP_map, counted] at told
  simpa [Function.comp_def] using told

end CodeContext
end CommandWiring
