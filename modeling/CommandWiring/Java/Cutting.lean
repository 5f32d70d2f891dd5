import CommandWiring.Java.Span

/-!
# Texts cut into leaves

A text is cut into leaves, each of which is read as one, and the gaps between them.
-/

namespace CommandWiring
namespace Java

/-- What is read as one, or what stands between two such parts. -/
inductive Segment where
  | gap (text : List Char)
  | leaf (text : List Char)

namespace Segment

def text : Segment -> List Char
  | gap text => text
  | leaf text => text

def isGap : Segment -> Bool
  | gap _ => true
  | leaf _ => false

end Segment

/-- The spans of the leaves among `segments`, the first of which begins at the offset `start`. -/
def leafSpans (start : Nat) : List Segment -> List Span
  | [] => []
  | segment :: rest =>
      let stop := start + utf8Length segment.text
      match segment with
      | .gap _ => leafSpans stop rest
      | .leaf _ => ⟨start, stop⟩ :: leafSpans stop rest

theorem between_leafSpans (start : Nat) (segments : List Segment) :
    Between start (start + utf8Length (segments.flatMap Segment.text))
      (leafSpans start segments) := by
  induction segments generalizing start with
  | nil => exact Nat.le_refl _
  | cons segment rest ih =>
      have tail := ih (start + utf8Length segment.text)
      rw [List.flatMap_cons, utf8Length_append, ← Nat.add_assoc]
      cases segment with
      | gap text => exact tail.lower (Nat.le_add_right _ _)
      | leaf text => exact ⟨Nat.le_refl _, Nat.le_add_right _ _, tail⟩

theorem exists_leaf_of_mem_leafSpans {before : List Char} {segments : List Segment} {span : Span}
    (member : span ∈ leafSpans (utf8Length before) segments) :
    ∃ front text rest, segments = front ++ .leaf text :: rest ∧
      span.start = utf8Length (before ++ front.flatMap Segment.text) ∧
      span.stop = utf8Length (before ++ front.flatMap Segment.text ++ text) := by
  induction segments generalizing before with
  | nil => cases member
  | cons segment rest ih =>
      have behind (isBehind : span ∈ leafSpans (utf8Length before + utf8Length segment.text) rest) :
          ∃ front text others, segment :: rest = front ++ .leaf text :: others ∧
            span.start = utf8Length (before ++ front.flatMap Segment.text) ∧
            span.stop = utf8Length (before ++ front.flatMap Segment.text ++ text) := by
        rw [← utf8Length_append] at isBehind
        rcases ih isBehind with ⟨front, text, others, rfl, isStart, isStop⟩
        refine ⟨segment :: front, text, others, rfl, ?_, ?_⟩
        · rw [isStart, List.flatMap_cons, List.append_assoc]
        · rw [isStop, List.flatMap_cons, List.append_assoc before]
      cases segment with
      | gap text => exact behind member
      | leaf text =>
          rcases List.mem_cons.mp member with rfl | isBehind
          · refine ⟨[], text, rest, rfl, ?_, ?_⟩
            · rw [List.flatMap_nil, List.append_nil]
            · rw [List.flatMap_nil, List.append_nil, utf8Length_append]
              rfl
          · exact behind isBehind

/-!
# Cuttings
-/

structure Cutting (text : List Char) where
  segments : List Segment
  whole : segments.flatMap Segment.text = text
  nonempty : ∀ segment ∈ segments, segment.text ≠ []
  blank : ∀ segment ∈ segments.tail, segment.isGap = true ->
    ∀ c ∈ segment.text, Text.isBlank c = true

def Cutting.spans {text : List Char} (cutting : Cutting text) : List Span :=
  leafSpans 0 cutting.segments

end Java
end CommandWiring
