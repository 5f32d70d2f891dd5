import CommandWiring.Text.Blank

/-!
# Spans

A span is a run of bytes of a text in UTF-8. Spans in a row follow one another without overlapping.
-/

namespace CommandWiring
namespace Java

/-- The bytes from `start` up to but not including `stop`. -/
structure Span where
  start : Nat
  stop : Nat
deriving DecidableEq, Repr

/-!
# Spans in a row
-/

/-- The spans follow one another between two offsets. -/
def Between (lower upper : Nat) : List Span -> Prop
  | [] => lower ≤ upper
  | span :: rest => lower ≤ span.start ∧ span.start ≤ span.stop ∧ Between span.stop upper rest

theorem Between.le {lower upper : Nat} {spans : List Span} (h : Between lower upper spans) :
    lower ≤ upper := by
  induction spans generalizing lower with
  | nil => exact h
  | cons span rest ih =>
      rcases h with ⟨before, forward, after⟩
      have := ih after
      omega

theorem Between.lower {lower middle upper : Nat} {spans : List Span} (le : lower ≤ middle)
    (h : Between middle upper spans) : Between lower upper spans := by
  cases spans with
  | nil => exact Nat.le_trans le h
  | cons span rest => exact ⟨Nat.le_trans le h.1, h.2⟩

theorem between_append {lower upper : Nat} {first second : List Span} :
    Between lower upper (first ++ second) ↔
      ∃ middle, Between lower middle first ∧ Between middle upper second := by
  induction first generalizing lower with
  | nil =>
      constructor
      · intro h
        exact ⟨lower, Nat.le_refl lower, h⟩
      · intro given
        rcases given with ⟨middle, le, h⟩
        exact h.lower le
  | cons span rest ih =>
      simp only [List.cons_append, Between, ih]
      constructor
      · intro given
        rcases given with ⟨before, forward, middle, one, other⟩
        exact ⟨middle, ⟨before, forward, one⟩, other⟩
      · intro given
        rcases given with ⟨middle, ⟨before, forward, one⟩, other⟩
        exact ⟨before, forward, middle, one, other⟩

theorem Between.forward {lower upper : Nat} {spans : List Span} (h : Between lower upper spans)
    {span : Span} (member : span ∈ spans) :
    lower ≤ span.start ∧ span.start ≤ span.stop ∧ span.stop ≤ upper := by
  rcases List.append_of_mem member with ⟨first, second, rfl⟩
  rcases between_append.mp h with ⟨middle, before, start, forward, after⟩
  have := before.le
  have := after.le
  omega

theorem Between.pairwise {lower upper : Nat} {spans : List Span} (h : Between lower upper spans) :
    spans.Pairwise fun first second => first.stop ≤ second.start := by
  induction spans generalizing lower with
  | nil => exact .nil
  | cons span rest ih =>
      rcases h with ⟨_, _, after⟩
      refine List.pairwise_cons.mpr ⟨?_, ih after⟩
      intro other member
      exact (after.forward member).1

/-!
# Bytes of a text
-/

def utf8Length (text : List Char) : Nat :=
  text.foldl (fun length c => length + c.utf8Size) 0

/-- An offset between two characters of `text`, or at one of its ends. -/
def IsBoundary (text : List Char) (offset : Nat) : Prop :=
  ∃ before after, text = before ++ after ∧ offset = utf8Length before

theorem utf8Length_append (first second : List Char) :
    utf8Length (first ++ second) = utf8Length first + utf8Length second := by
  have general (start : Nat) (text : List Char) :
      text.foldl (fun length c => length + c.utf8Size) start = start + utf8Length text := by
    induction text generalizing start with
    | nil => rfl
    | cons c rest ih =>
        have fromZero := ih (0 + c.utf8Size)
        simp only [utf8Length, List.foldl_cons] at ih ⊢
        rw [ih]
        simp only [utf8Length] at fromZero
        omega
  rw [utf8Length, List.foldl_append, general]
  rfl

theorem utf8Length_cons (c : Char) (text : List Char) :
    utf8Length (c :: text) = c.utf8Size + utf8Length text := by
  have split := utf8Length_append [c] text
  simpa [utf8Length] using split

theorem utf8ByteSize_ofList (text : List Char) :
    (String.ofList text).utf8ByteSize = utf8Length text := by
  induction text with
  | nil => rfl
  | cons c rest ih =>
      rw [String.ofList_cons, String.utf8ByteSize_append, ih, utf8Length_cons,
        String.utf8ByteSize_singleton]

theorem utf8Length_pos {text : List Char} (nonempty : text ≠ []) : 0 < utf8Length text := by
  cases text with
  | nil => exact absurd rfl nonempty
  | cons c rest =>
      have := c.utf8Size_pos
      rw [utf8Length_cons]
      omega

end Java
end CommandWiring
