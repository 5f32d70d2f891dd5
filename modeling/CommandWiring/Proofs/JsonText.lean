import CommandWiring.Json.Printer
import CommandWiring.Json.Reader
import Mathlib.Tactic.SplitIfs

/-!
# Reading what was printed

The wide form of a value reads back as that value. A string may hold any characters, arrays and
objects may be empty, and a name may stand before several members. The numbers are natural numbers
in decimal notation.
-/

namespace CommandWiring
namespace Json

/-!
# Strings

Each character is written so that the reader takes it in one step.
-/

theorem hexValue?_hexDigit : ∀ n < 16, hexValue? (hexDigit n) = some n := by
  decide

theorem unicodeEscape?_of_control {c : Char} (isControl : c.toNat < 0x20) (rest : List Char) :
    unicodeEscape? ('0' :: '0' :: hexDigit (c.toNat / 16) :: hexDigit (c.toNat % 16) :: rest) =
      some (c, rest) := by
  have unit : codeUnit?
      ('0' :: '0' :: hexDigit (c.toNat / 16) :: hexDigit (c.toNat % 16) :: rest) =
        some (c.toNat, rest) := by
    have zero : hexValue? '0' = some 0 := by decide
    rw [codeUnit?, zero, hexValue?_hexDigit _ (by omega), hexValue?_hexDigit _ (by omega)]
    dsimp only
    rw [show ((0 * 16 + 0) * 16 + c.toNat / 16) * 16 + c.toNat % 16 = c.toNat by omega]
  rw [unicodeEscape?, unit]
  dsimp only
  rw [if_neg (by omega), if_neg (by omega), Char.ofNat_toNat]

theorem escapeChar_cases (c : Char) :
    (∃ mark, plainEscape? mark = some c ∧ escapeChar c = ['\\', mark]) ∨
      (c.toNat < 0x20 ∧ escapeChar c =
        ['\\', 'u', '0', '0', hexDigit (c.toNat / 16), hexDigit (c.toNat % 16)]) ∨
      (c ≠ '"' ∧ c ≠ '\\' ∧ ¬ c.toNat < 0x20 ∧ escapeChar c = [c]) := by
  unfold escapeChar
  split_ifs with isQuote isBackslash isBackspace isFormFeed isLineFeed isReturn isTab isControl
  · exact Or.inl ⟨'"', by rw [isQuote]; rfl, rfl⟩
  · exact Or.inl ⟨'\\', by rw [isBackslash]; rfl, rfl⟩
  · exact Or.inl ⟨'b', by rw [isBackspace]; rfl, rfl⟩
  · exact Or.inl ⟨'f', by rw [isFormFeed]; rfl, rfl⟩
  · exact Or.inl ⟨'n', by rw [isLineFeed]; rfl, rfl⟩
  · exact Or.inl ⟨'r', by rw [isReturn]; rfl, rfl⟩
  · exact Or.inl ⟨'t', by rw [isTab]; rfl, rfl⟩
  · exact Or.inr (Or.inl ⟨isControl, rfl⟩)
  · exact Or.inr (Or.inr ⟨isQuote, isBackslash, isControl, rfl⟩)

theorem stringChars?_escapeChar (fuel : Nat) (found : List Char) (c : Char) (rest : List Char) :
    stringChars? (fuel + 1) found (escapeChar c ++ rest) =
      stringChars? fuel (c :: found) rest := by
  rcases escapeChar_cases c with
    ⟨mark, decodes, isMarked⟩ | ⟨isControl, isCoded⟩ |
      ⟨notQuote, notBackslash, notControl, isPlain⟩
  · rw [isMarked, stringChars?.eq_def]
    dsimp only [List.cons_append, List.nil_append]
    rw [if_neg (by decide), if_pos rfl]
    split
    · next isCode =>
        rcases (List.cons.inj isCode).1 with rfl
        cases decodes
    · next escape more _ isEscape =>
        rcases List.cons.inj isEscape with ⟨rfl, rfl⟩
        rw [decodes]
    · next isNil => cases isNil
  · rw [isCoded]
    simp only [List.cons_append, List.nil_append, stringChars?]
    rw [unicodeEscape?_of_control isControl]
    simp
  · rw [isPlain, List.singleton_append, stringChars?.eq_def]
    simp [notQuote, notBackslash, notControl]

theorem stringChars?_escaped (extra : Nat) (found text rest : List Char) :
    stringChars? (text.length + extra + 1) found (text.flatMap escapeChar ++ '"' :: rest) =
      some (found.reverse ++ text, rest) := by
  induction text generalizing found with
  | nil => simp [stringChars?]
  | cons c text ih =>
      rw [List.flatMap_cons, List.append_assoc, List.length_cons,
        show text.length + 1 + extra + 1 = text.length + extra + 1 + 1 by omega,
        stringChars?_escapeChar, ih, List.reverse_cons, List.append_assoc, List.singleton_append]

theorem length_le_length_escaped (text : List Char) :
    text.length ≤ (text.flatMap escapeChar).length := by
  induction text with
  | nil => exact Nat.zero_le _
  | cons c text ih =>
      have nonempty : 0 < (escapeChar c).length := by
        rcases escapeChar_cases c with ⟨_, _, isMarked⟩ | ⟨_, isCoded⟩ | ⟨_, _, _, isPlain⟩
        · exact isMarked ▸ Nat.succ_pos _
        · exact isCoded ▸ Nat.succ_pos _
        · exact isPlain ▸ Nat.succ_pos _
      rw [List.flatMap_cons, List.length_append, List.length_cons]
      omega

theorem quotedText?_escaped (text : String) (rest : List Char) :
    quotedText? (text.toList.flatMap escapeChar ++ '"' :: rest) = some (text, rest) := by
  obtain ⟨extra, enough⟩ : ∃ extra,
      (text.toList.flatMap escapeChar ++ '"' :: rest).length = text.toList.length + extra := by
    have := length_le_length_escaped text.toList
    exact ⟨(text.toList.flatMap escapeChar ++ '"' :: rest).length - text.toList.length, by
      rw [List.length_append]
      omega⟩
  rw [quotedText?, enough, stringChars?_escaped]
  simp

theorem quoted_append (text : String) (rest : List Char) :
    quoted text ++ rest = '"' :: (text.toList.flatMap escapeChar ++ '"' :: rest) := by
  simp [quoted]

/-!
# Numbers
-/

/-- What can stand behind a number without becoming a part of it. -/
def EndsNumber (rest : List Char) : Prop :=
  ∀ c ∈ rest.head?, c.isDigit = false ∧ c ≠ '.' ∧ c ≠ 'e' ∧ c ≠ 'E'

theorem endsNumber_comma (rest : List Char) : EndsNumber (',' :: rest) := by
  intro c isComma
  rcases Option.some.inj isComma with rfl
  decide

theorem endsNumber_newline (level : Nat) (rest : List Char) :
    EndsNumber (newline level ++ rest) := by
  intro c isLineFeed
  rcases Option.some.inj isLineFeed with rfl
  decide

theorem digits_append {text rest : List Char} (areDigits : ∀ c ∈ text, c.isDigit = true)
    (ends : EndsNumber rest) : digits (text ++ rest) = (text, rest) := by
  have stops : rest.takeWhile Char.isDigit = [] ∧ rest.dropWhile Char.isDigit = rest := by
    cases rest with
    | nil => exact ⟨rfl, rfl⟩
    | cons c rest =>
        have notDigit := (ends c rfl).1
        exact ⟨by simp [notDigit], by simp [notDigit]⟩
  rw [digits, List.takeWhile_append_of_pos areDigits, List.dropWhile_append_of_pos areDigits,
    stops.1, stops.2, List.append_nil]

theorem isDigit_of_mem_toDigits {n : Nat} {c : Char} (member : c ∈ Nat.toDigits 10 n) :
    c.isDigit = true :=
  Nat.isDigit_of_mem_toDigits (by decide) (by decide) member

theorem exists_toDigits_eq_cons (n : Nat) :
    ∃ c rest, Nat.toDigits 10 n = c :: rest ∧ c.isDigit = true := by
  cases front : Nat.toDigits 10 n with
  | nil => exact absurd front Nat.toDigits_ne_nil
  | cons c rest =>
      exact ⟨c, rest, rfl, isDigit_of_mem_toDigits (front ▸ List.mem_cons_self)⟩

theorem head?_toDigits_ne_zero {n : Nat} (positive : 0 < n) :
    (Nat.toDigits 10 n).head? ≠ some '0' := by
  induction n using Nat.strongRecOn with
  | _ n ih =>
      by_cases small : n < 10
      · rw [Nat.toDigits_of_lt_base small, List.head?_cons]
        have notZero : ∀ digit < 10, 0 < digit -> some (Nat.digitChar digit) ≠ some '0' := by
          decide
        exact notZero n small positive
      · have front := ih (n / 10) (by omega) (by omega)
        rw [Nat.toDigits_of_base_le (by decide) (by omega)]
        rcases exists_toDigits_eq_cons (n / 10) with ⟨digit, more, isFront, _⟩
        rw [isFront] at front ⊢
        exact front

theorem wholePart?_toDigits (n : Nat) {rest : List Char} (ends : EndsNumber rest) :
    wholePart? (Nat.toDigits 10 n ++ rest) = some (Nat.toDigits 10 n, rest) := by
  rw [wholePart?, digits_append (fun _ => isDigit_of_mem_toDigits) ends]
  split
  · next isNil => exact absurd (congrArg Prod.fst isNil) Nat.toDigits_ne_nil
  · next second more _ isZero =>
      have written : Nat.toDigits 10 n = '0' :: second :: more := congrArg Prod.fst isZero
      rcases Nat.eq_zero_or_pos n with rfl | positive
      · cases written
      · exact absurd (by rw [written, List.head?_cons]) (head?_toDigits_ne_zero positive)
  · next same => rw [same]

theorem fractionPart?_of_endsNumber {rest : List Char} (ends : EndsNumber rest) :
    fractionPart? rest = some ([], rest) := by
  cases rest with
  | nil => rfl
  | cons c rest =>
      rw [fractionPart?]
      intro more same
      exact absurd (List.cons.inj same).1 (ends c rfl).2.1

theorem exponentPart?_of_endsNumber {rest : List Char} (ends : EndsNumber rest) :
    exponentPart? rest = some ([], rest) := by
  cases rest with
  | nil => rfl
  | cons c rest =>
      have notMark : ¬ (c = 'e' ∨ c = 'E') := not_or.mpr (ends c rfl).2.2
      simp only [exponentPart?.eq_def, if_neg notMark]

theorem toList_toString (n : Nat) : (toString n).toList = Nat.toDigits 10 n :=
  Nat.toList_repr

theorem number?_toString (n : Nat) {rest : List Char} (ends : EndsNumber rest) :
    number? ((toString n).toList ++ rest) = some (toString n, rest) := by
  have noSign : signPart (Nat.toDigits 10 n ++ rest) = ([], Nat.toDigits 10 n ++ rest) := by
    rcases exists_toDigits_eq_cons n with ⟨c, more, isFront, isDigit⟩
    rw [isFront, List.cons_append, signPart]
    intro other same
    rcases (List.cons.inj same).1 with rfl
    cases isDigit
  rw [number?, toList_toString, noSign]
  simp only [wholePart?_toDigits n ends, fractionPart?_of_endsNumber ends,
    exponentPart?_of_endsNumber ends, Option.bind_eq_bind, Option.bind_some, List.nil_append,
    List.append_nil, Option.pure_def]
  rw [← toList_toString, String.ofList_toList]

/-!
# Blanks
-/

theorem isBlank_of_mem_newline {level : Nat} {c : Char} (member : c ∈ newline level) :
    isBlank c = true := by
  rcases List.mem_cons.mp member with rfl | member
  · rfl
  · rw [(List.mem_replicate.mp member).2]
    rfl

theorem skipBlanks_newline (level : Nat) (text : List Char) :
    skipBlanks (newline level ++ text) = skipBlanks text :=
  List.dropWhile_append_of_pos fun _ => isBlank_of_mem_newline

theorem skipBlanks_cons {c : Char} (notBlank : isBlank c = false) (text : List Char) :
    skipBlanks (c :: text) = c :: text := by
  rw [skipBlanks, List.dropWhile_cons_of_neg (by rw [notBlank]; exact Bool.false_ne_true)]

theorem value?_congr {first second : List Char} (same : skipBlanks first = skipBlanks second)
    (fuel : Nat) : value? fuel first = value? fuel second := by
  cases fuel with
  | zero => rfl
  | succ fuel => rw [value?, value?, same]

theorem itemList?_newline (fuel level : Nat) (text : List Char) :
    itemList? fuel (newline level ++ text) = itemList? fuel text := by
  cases fuel with
  | zero => rfl
  | succ fuel => rw [itemList?, itemList?, value?_congr (skipBlanks_newline level text)]

theorem memberList?_newline (fuel level : Nat) (text : List Char) :
    memberList? fuel (newline level ++ text) = memberList? fuel text := by
  cases fuel with
  | zero => rfl
  | succ fuel => rw [memberList?, memberList?, skipBlanks_newline]

/-!
# Values
-/

/-- The numbers in a value are natural numbers in decimal notation. -/
inductive Whole : Json -> Prop where
  | null : Whole .null
  | bool (value : Bool) : Whole (.bool value)
  | nat (n : Nat) : Whole (nat n)
  | string (text : String) : Whole (.string text)
  | array {items : List Json} : (∀ item ∈ items, item.Whole) -> Whole (.array items)
  | object {members : List (String × Json)} :
      (∀ entry ∈ members, entry.2.Whole) -> Whole (.object members)

theorem isBlank_of_isDigit {c : Char} (isDigit : c.isDigit = true) : isBlank c = false := by
  rw [Bool.eq_false_iff]
  intro isBlank
  simp only [Json.isBlank, Bool.or_eq_true, beq_iff_eq] at isBlank
  rcases isBlank with ((rfl | rfl) | rfl) | rfl <;> cases isDigit

/-- A printed value begins neither with a blank nor like the end of an array. -/
theorem exists_wideChars_eq_cons {value : Json} (whole : value.Whole) (level : Nat) :
    ∃ c rest, wideChars level value = c :: rest ∧ isBlank c = false ∧ c ≠ ']' := by
  cases whole with
  | null => exact ⟨_, _, rfl, rfl, by decide⟩
  | bool value => cases value <;> exact ⟨_, _, rfl, rfl, by decide⟩
  | nat n =>
      rcases exists_toDigits_eq_cons n with ⟨c, rest, isFront, isDigit⟩
      refine ⟨c, rest, (toList_toString n).trans isFront, isBlank_of_isDigit isDigit, ?_⟩
      rintro rfl
      cases isDigit
  | string text => exact ⟨_, _, rfl, rfl, by decide⟩
  | @array items _ => cases items <;> exact ⟨_, _, rfl, rfl, by decide⟩
  | @object members _ => rcases members with _ | ⟨⟨name, first⟩, rest⟩ <;>
      exact ⟨_, _, rfl, rfl, by decide⟩

theorem value?_nat (fuel n : Nat) {rest : List Char} (ends : EndsNumber rest) :
    value? (fuel + 1) ((toString n).toList ++ rest) = some (nat n, rest) := by
  have read := number?_toString n ends
  rcases exists_toDigits_eq_cons n with ⟨c, more, isFront, isDigit⟩
  rw [toList_toString, isFront, List.cons_append] at read ⊢
  rw [value?, skipBlanks_cons (isBlank_of_isDigit isDigit)]
  split
  · next isNil => cases isNil
  -- a digit is none of the characters that begin another value
  all_goals try
    next same =>
      rcases (List.cons.inj same).1 with rfl
      cases isDigit
  next => rw [read]; rfl

theorem value?_quote (fuel : Nat) (rest : List Char) :
    value? (fuel + 1) ('"' :: rest) =
      (quotedText? rest).map fun (text, rest) => (.string text, rest) :=
  rfl

theorem value?_bracket {fuel level : Nat} {c : Char} {rest : List Char}
    (notBlank : isBlank c = false) (notClosing : c ≠ ']') :
    value? (fuel + 1) ('[' :: (newline level ++ c :: rest)) =
      (itemList? fuel (c :: rest)).map fun (items, rest) => (.array items, rest) := by
  have front : skipBlanks (newline level ++ c :: rest) = c :: rest := by
    rw [skipBlanks_newline, skipBlanks_cons notBlank]
  rw [value?, skipBlanks_cons rfl]
  simp only [front]
  split
  · next same => exact absurd (List.cons.inj same).1 notClosing
  · rfl

theorem value?_brace {fuel level : Nat} {rest : List Char} :
    value? (fuel + 1) ('\x7b' :: (newline level ++ '"' :: rest)) =
      (memberList? fuel ('"' :: rest)).map fun (members, rest) => (.object members, rest) := by
  have front : skipBlanks (newline level ++ '"' :: rest) = '"' :: rest := by
    rw [skipBlanks_newline, skipBlanks_cons rfl]
  rw [value?, skipBlanks_cons rfl]
  simp only [front]
  rfl

/-- The reader takes what the printer makes of a value, and leaves what follows. -/
def ReadsBack (value : Json) : Prop :=
  ∀ level fuel rest, EndsNumber rest -> (wideChars level value).length < fuel ->
    value? fuel (wideChars level value ++ rest) = some (value, rest)

theorem itemList?_last {fuel below : Nat} {text rest : List Char} {item : Json}
    (read : value? fuel text = some (item, newline below ++ ']' :: rest)) :
    itemList? (fuel + 1) text = some ([item], rest) := by
  rw [itemList?, read]
  dsimp only
  rw [skipBlanks_newline, skipBlanks_cons rfl]
  rfl

theorem itemList?_next {fuel level : Nat} {text rest : List Char} {item : Json}
    (read : value? fuel text = some (item, ',' :: (newline level ++ rest))) :
    itemList? (fuel + 1) text =
      (itemList? fuel rest).map fun (items, rest) => (item :: items, rest) := by
  rw [itemList?, read]
  dsimp only
  rw [skipBlanks_cons rfl, ← itemList?_newline fuel level rest]
  rfl

theorem itemList?_wideItems {first : Json} {items : List Json}
    (readsBack : ∀ item ∈ first :: items, item.ReadsBack) (level fuel below : Nat)
    (rest : List Char)
    (enough : (wideChars level first).length + (wideItems level items).length + 1 < fuel) :
    itemList? fuel (wideChars level first ++
      (wideItems level items ++ (newline below ++ ']' :: rest))) = some (first :: items, rest) := by
  induction items generalizing first fuel with
  | nil =>
      rcases Nat.exists_eq_add_of_lt enough with ⟨more, rfl⟩
      exact itemList?_last (readsBack first List.mem_cons_self level _ _
        (endsNumber_newline below _) (by omega))
  | cons second items ih =>
      rcases Nat.exists_eq_add_of_lt enough with ⟨more, rfl⟩
      simp only [wideItems, List.cons_append, List.append_assoc, List.length_cons,
        List.length_append]
      rw [itemList?_next (readsBack first List.mem_cons_self level _ _ (endsNumber_comma _)
        (by omega)), ih]
      · rfl
      · exact fun item member => readsBack item (List.mem_cons_of_mem _ member)
      · omega

theorem memberList?_member {fuel : Nat} {name : String} {text rest : List Char} {value : Json}
    (read : value? fuel text = some (value, rest)) :
    memberList? (fuel + 1) (quoted name ++ ':' :: ' ' :: text) =
      match skipBlanks rest with
      | ',' :: rest =>
          (memberList? fuel rest).map fun (members, rest) => ((name, value) :: members, rest)
      | '\x7d' :: rest => some ([(name, value)], rest)
      | _ => none := by
  have behindColon : value? fuel (' ' :: text) = some (value, rest) := by
    have sameBlanks : skipBlanks (' ' :: text) = skipBlanks text := rfl
    rw [value?_congr sameBlanks, read]
  rw [quoted_append, memberList?, skipBlanks_cons rfl]
  split
  · next same =>
      rcases (List.cons.inj same).2 with rfl
      rw [quotedText?_escaped]
      dsimp only
      rw [skipBlanks_cons rfl]
      split
      · next same =>
          rcases (List.cons.inj same).2 with rfl
          exact behindColon ▸ rfl
      · next noColon => exact absurd rfl (noColon _)
  · next noQuote => exact absurd rfl (noQuote _)

theorem memberList?_last {fuel below : Nat} {name : String} {text rest : List Char} {value : Json}
    (read : value? fuel text = some (value, newline below ++ '\x7d' :: rest)) :
    memberList? (fuel + 1) (quoted name ++ ':' :: ' ' :: text) = some ([(name, value)], rest) := by
  rw [memberList?_member read, skipBlanks_newline, skipBlanks_cons rfl]
  rfl

theorem memberList?_next {fuel level : Nat} {name : String} {text rest : List Char} {value : Json}
    (read : value? fuel text = some (value, ',' :: (newline level ++ rest))) :
    memberList? (fuel + 1) (quoted name ++ ':' :: ' ' :: text) =
      (memberList? fuel rest).map fun (members, rest) => ((name, value) :: members, rest) := by
  rw [memberList?_member read, skipBlanks_cons rfl, ← memberList?_newline fuel level rest]
  rfl

theorem memberList?_wideMembers {name : String} {first : Json} {members : List (String × Json)}
    (readsBack : ∀ entry ∈ (name, first) :: members, entry.2.ReadsBack) (level fuel below : Nat)
    (rest : List Char)
    (enough : (wideChars level first).length + (wideMembers level members).length + 1 < fuel) :
    memberList? fuel (quoted name ++ ':' :: ' ' :: (wideChars level first ++
      (wideMembers level members ++ (newline below ++ '\x7d' :: rest)))) =
        some ((name, first) :: members, rest) := by
  induction members generalizing name first fuel with
  | nil =>
      have read : first.ReadsBack := readsBack (name, first) List.mem_cons_self
      rcases Nat.exists_eq_add_of_lt enough with ⟨more, rfl⟩
      exact memberList?_last (read level _ _ (endsNumber_newline below _) (by omega))
  | cons second members ih =>
      have read : first.ReadsBack := readsBack (name, first) List.mem_cons_self
      rcases Nat.exists_eq_add_of_lt enough with ⟨more, rfl⟩
      rcases second with ⟨otherName, second⟩
      simp only [wideMembers, List.cons_append, List.append_assoc, List.length_cons,
        List.length_append, List.nil_append]
      rw [memberList?_next (read level _ _ (endsNumber_comma _) (by omega)), ih]
      · rfl
      · exact fun entry member => readsBack entry (List.mem_cons_of_mem _ member)
      · omega

/-- Every printed value reads back. -/
theorem Whole.readsBack {value : Json} (whole : value.Whole) : value.ReadsBack := by
  induction whole with
  | null =>
      intro level fuel rest _ enough
      rcases Nat.exists_eq_add_of_lt enough with ⟨more, rfl⟩
      rfl
  | bool value =>
      intro level fuel rest _ enough
      rcases Nat.exists_eq_add_of_lt enough with ⟨more, rfl⟩
      cases value with
      | true => rfl
      | false => rfl
  | nat n =>
      intro level fuel rest ends enough
      rcases Nat.exists_eq_add_of_lt enough with ⟨more, rfl⟩
      exact value?_nat _ n ends
  | string text =>
      intro level fuel rest _ enough
      rcases Nat.exists_eq_add_of_lt enough with ⟨more, rfl⟩
      rw [wideChars, quoted_append, value?_quote, quotedText?_escaped]
      rfl
  | @array items whole ih =>
      intro level fuel rest _ enough
      rcases Nat.exists_eq_add_of_lt enough with ⟨more, rfl⟩
      cases items with
      | nil => rfl
      | cons first items =>
          rcases exists_wideChars_eq_cons (whole first List.mem_cons_self) (level + 1) with
            ⟨c, behind, isFront, notBlank, notClosing⟩
          have isText : wideChars level (.array (first :: items)) ++ rest = '[' ::
              (newline (level + 1) ++ c :: (behind ++ (wideItems (level + 1) items ++
                (newline level ++ ']' :: rest)))) := by
            rw [wideChars, isFront]
            simp
          have read := itemList?_wideItems ih (level + 1)
            ((wideChars level (.array (first :: items))).length + more) level rest (by
              simp only [wideChars, List.length_cons, List.length_append]
              omega)
          rw [isFront, List.cons_append] at read
          rw [isText, value?_bracket notBlank notClosing, read]
          rfl
  | @object members whole ih =>
      intro level fuel rest _ enough
      rcases Nat.exists_eq_add_of_lt enough with ⟨more, rfl⟩
      rcases members with _ | ⟨⟨name, first⟩, members⟩
      · rfl
      · have isText : wideChars level (.object ((name, first) :: members)) ++ rest = '\x7b' ::
            (newline (level + 1) ++ (quoted name ++ ':' :: ' ' :: (wideChars (level + 1) first ++
              (wideMembers (level + 1) members ++ (newline level ++ '\x7d' :: rest))))) := by
          rw [wideChars]
          simp
        have read := memberList?_wideMembers ih (level + 1)
          ((wideChars level (.object ((name, first) :: members))).length + more) level rest (by
            simp only [wideChars, List.length_cons, List.length_append]
            omega)
        rw [quoted_append] at isText read
        rw [isText, value?_brace, read]
        rfl

theorem parse?_wide {value : Json} (whole : value.Whole) : parse? value.wide = some value := by
  have read := whole.readsBack 0 (2 * (wideChars 0 value).length + 2) []
    (fun _ isFront => by cases isFront) (by omega)
  rw [List.append_nil] at read
  rw [parse?, wide, String.toList_ofList]
  rw [read]
  rfl

end Json
end CommandWiring
