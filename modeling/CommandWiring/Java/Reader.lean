import CommandWiring.Java.Reader.Grammar
import CommandWiring.Java.Reader.Laying

/-!
# Reading Java

A reading says how the lexemes of a text belong together, and laid over the text it gives a
document. White space and comments have no part in how the lexemes belong together.

A text that is no program has a document all the same: a missing semicolon is made up for, and
beyond that the lexemes stand side by side.
-/

namespace CommandWiring
namespace Java

/-- A reading uses up all lexemes, and it is well shaped. -/
structure Reading (count : Nat) where
  construct : Construct
  skeletons : List Skeleton
  isUnit : construct.isUnit = true
  complete : Skeleton.leafCounts skeletons = count
  shaped : (Skeleton.node .plain construct skeletons).isShaped = true

namespace Reading

/-- The reading that consists of `skeletons`, if they make a program. -/
def ofSkeletons? (count : Nat) (skeletons : List Skeleton) : Option (Reading count) :=
  if h : Skeleton.leafCounts skeletons = count ∧
      (Skeleton.node .plain .program skeletons).isShaped = true then
    some {
      construct := .program
      skeletons := skeletons
      isUnit := rfl
      complete := h.1
      shaped := h.2
    }
  else
    none

def unitChildren? : List Skeleton -> Option (List Skeleton)
  | [.node _ .program children] => some children
  | _ => none

def runUnit (gap? : Option Nat) (lexemes : List Lexeme) : Machine.Parse :=
  Machine.parse { grammar := Grammar.rules, gap? := gap? } Grammar.unit lexemes

def skeletons? (lexemes : List Lexeme) : Option (List Skeleton) :=
  match runUnit none lexemes with
  | .complete skeletons => unitChildren? skeletons
  | .stuck taken =>
      match runUnit (some taken) lexemes with
      | .complete skeletons => unitChildren? skeletons
      | .stuck _ => none

def program? (lexemes : List Lexeme) : Option (Reading lexemes.length) :=
  (skeletons? lexemes).bind (ofSkeletons? lexemes.length)

/-!
# Lexemes side by side
-/

def alone (lexeme : Lexeme) : Skeleton :=
  if Grammar.isName lexeme then .node .plain .identifier [.leaf] else .leaf

theorem leafCounts_map_alone (lexemes : List Lexeme) :
    Skeleton.leafCounts (lexemes.map alone) = lexemes.length := by
  induction lexemes with
  | nil => rfl
  | cons first rest ih =>
      have single : (alone first).leafCount = 1 := by
        unfold alone
        split <;> rfl
      simp [Skeleton.leafCounts, single, ih, Nat.add_comm]

theorem areShaped_map_alone (lexemes : List Lexeme) :
    Skeleton.areShaped (lexemes.map alone) = true := by
  induction lexemes with
  | nil => rfl
  | cons first rest ih =>
      have single : (alone first).isShaped = true := by
        unfold alone
        split <;> rfl
      simp [Skeleton.areShaped, single, ih]

theorem seat_alone {lexeme : Lexeme} {seat : Seat} (h : (alone lexeme).seat? = some seat) :
    seat = ⟨.plain, .identifier⟩ := by
  unfold alone at h
  split at h
  · exact (Option.some.inj h).symm
  · simp [Skeleton.seat?] at h

theorem all_seats_alone {accepts : Seat -> Bool} (lexemes : List Lexeme)
    (h : accepts ⟨.plain, .identifier⟩ = true) :
    ((lexemes.map alone).filterMap Skeleton.seat?).all accepts = true := by
  refine List.all_eq_true.mpr ?_
  intro seat mem
  obtain ⟨skeleton, mem, isSeat⟩ := List.mem_filterMap.mp mem
  obtain ⟨lexeme, _, rfl⟩ := List.mem_map.mp mem
  rw [seat_alone isSeat]
  exact h

theorem admits_alone (lexemes : List Lexeme) :
    Shape.admits .unreadable ((lexemes.map alone).filterMap Skeleton.seat?) = true := by
  rw [Shape.admits, all_seats_alone lexemes rfl, all_seats_alone lexemes rfl,
    all_seats_alone lexemes rfl]
  rfl

theorem spells_alone (children : List Skeleton) : Shape.spells .unreadable children = true := by
  unfold Shape.spells
  split <;> rfl

def unreadable (lexemes : List Lexeme) : Reading lexemes.length where
  construct := .unreadable
  skeletons := lexemes.map alone
  isUnit := rfl
  complete := leafCounts_map_alone lexemes
  shaped := by
    simp only [Skeleton.isShaped, admits_alone, spells_alone, areShaped_map_alone]
    rfl

def ofLexemes (lexemes : List Lexeme) : Reading lexemes.length :=
  (program? lexemes).getD (unreadable lexemes)

theorem complete_tokens {text : String} (reading : Reading (tokenize text).lexemes.length) :
    Skeleton.leafCounts reading.skeletons = (tokenize text).tokens.length := by
  rw [reading.complete, TokenList.lexemes, List.length_map]

def document {text : String} (reading : Reading (tokenize text).lexemes.length) : Document where
  text := text
  root := layText text reading.construct reading.skeletons
  isUnit := reading.isUnit
  ordered_root := ordered_layText reading.complete_tokens
  shaped_root := shaped_layText reading.complete_tokens reading.isUnit reading.shaped
  bounded_root := bounded_layText
  stop_root := rfl
  cut := ⟨cuttingOf text.toList, leaves_layText reading.complete_tokens⟩

end Reading

def Document.parse (text : String) : Document :=
  (Reading.ofLexemes (tokenize text).lexemes).document

/-- The reader takes every text. -/
def reader : Parser where
  parse text := .ok (.parse text)
  faithful := by
    rintro text document ⟨⟩
    rfl

end Java
end CommandWiring
