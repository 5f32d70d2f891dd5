import CommandWiring.Proofs.JsonText
import CommandWiring.Report.Encoding

/-!
# Reading written reports

A report is written as a value whose numbers are natural, so its text reads back as that value. Each
field is read back by the reader of its kind, and so is the whole record. Hence no two reports have
the same written form.
-/

namespace CommandWiring
namespace Json

/-!
# Fields

A reader undoes a writer if it gives back every value that was written.
-/

section

variable {α : Type}

def Undoes (decode : Json -> Option α) (encode : α -> Json) : Prop :=
  ∀ value, decode (encode value) = some value

theorem string?_undoes : Undoes string? .string :=
  fun _ => rfl

theorem digitsValue_toDigits (n : Nat) : digitsValue (Nat.toDigits 10 n) = n := by
  have sameFold : (fun value (digit : Char) => value * 10 + (digit.toNat - '0'.toNat)) =
      fun value digit => 10 * value + (digit.toNat - '0'.toNat) := by
    funext value digit
    rw [Nat.mul_comm]
  rw [digitsValue, sameFold, ← Nat.ofDigitChars_eq_foldl, Nat.ofDigitChars_ten_toDigits]

theorem natBelow?_nat {bound n : Nat} (less : n < bound) : (nat n).natBelow? bound = some n := by
  have areDigits : (Nat.toDigits 10 n).all Char.isDigit = true :=
    List.all_eq_true.mpr fun _ => isDigit_of_mem_toDigits
  rw [nat, natBelow?, toList_toString, digitsValue_toDigits,
    if_pos ⟨Nat.toDigits_ne_nil, areDigits, less⟩]

theorem word?_undoes : Undoes word? word := by
  intro n
  rw [word?, word, natBelow?_nat n.toNat_lt_size, Option.map_some, UInt32.ofNat_toNat]

theorem allowed?_optional {decode : Json -> Option α} {encode : α -> Json}
    (undoes : Undoes decode encode) (present : ∀ value, (encode value).isNull = false)
    (value? : Option α) : allowed? decode (some (optional encode value?)) = some value? := by
  cases value? with
  | none => rfl
  | some value => rw [optional, allowed?, optional?, present, undoes]; rfl

theorem list?_undoes {decode : Json -> Option α} {encode : α -> Json}
    (undoes : Undoes decode encode) :
    Undoes (list? decode) fun values => .array (values.map encode) := by
  intro values
  change (values.map encode).mapM decode = some values
  induction values with
  | nil => rfl
  | cons first rest ih => rw [List.map_cons, List.mapM_cons, undoes, ih]; rfl

end

end Json

/-!
# Records
-/

theorem MatchKind.ofJson?_undoes :
    Json.Undoes MatchKind.ofJson? fun kind => .string kind.label := by
  intro kind
  cases kind <;> rfl

theorem SiteKind.ofJson?_undoes :
    Json.Undoes SiteKind.ofJson? fun kind => .string kind.label := by
  intro kind
  cases kind <;> rfl

theorem FoundCommand.ofJson?_undoes : Json.Undoes FoundCommand.ofJson? FoundCommand.toJson := by
  intro command
  have areFields : Json.fields? fieldNames command.toJson = some
      [some (.string command.kind.label), some (.string command.text),
        some (Json.word command.startLine), some (Json.word command.startColumn),
        some (Json.word command.endLine), some (Json.word command.endColumn),
        some (Json.word command.startByte), some (Json.word command.endByte),
        some (Json.optional .string command.context?)] :=
    rfl
  rw [ofJson?, areFields]
  simp only [Json.required?, Option.bind_some, MatchKind.ofJson?_undoes command.kind,
    Json.string?_undoes command.text, Json.word?_undoes _,
    Json.allowed?_optional Json.string?_undoes (fun _ => rfl) command.context?]
  rfl

theorem SiteReport.ofJson?_undoes : Json.Undoes SiteReport.ofJson? SiteReport.toJson := by
  intro report
  have areFields : Json.fields? fieldNames report.toJson = some
      [some (.string report.id), some (.string report.filePath),
        some (.string report.siteKind.label), some (.string report.siteName),
        some (Json.word report.siteLine),
        some (Json.optional FoundCommand.toJson report.command?),
        some (Json.optional .string report.reason?)] :=
    rfl
  rw [ofJson?, areFields]
  simp only [Json.required?, Option.bind_some, SiteKind.ofJson?_undoes report.siteKind,
    Json.string?_undoes _, Json.word?_undoes _,
    Json.allowed?_optional FoundCommand.ofJson?_undoes (fun _ => rfl) report.command?,
    Json.allowed?_optional Json.string?_undoes (fun _ => rfl) report.reason?]
  rfl

theorem FileReport.ofJson?_undoes : Json.Undoes FileReport.ofJson? FileReport.toJson := by
  intro report
  have areFields : Json.fields? fieldNames report.toJson = some
      [some (.string report.filePath), some (.string report.language),
        some (.string report.contentHash),
        some (.array (report.reports.map SiteReport.toJson))] :=
    rfl
  rw [ofJson?, areFields]
  simp only [Json.required?, Option.bind_some, Json.string?_undoes _,
    Json.list?_undoes SiteReport.ofJson?_undoes report.reports]
  rfl

/-!
# The numbers of a report
-/

namespace Json

theorem Whole.word (n : UInt32) : (word n).Whole :=
  .nat n.toNat

theorem Whole.optional {α : Type} {encode : α -> Json} (whole : ∀ value, (encode value).Whole)
    (value? : Option α) : (optional encode value?).Whole := by
  cases value? with
  | none => exact .null
  | some value => exact whole value

theorem Whole.of_values {members : List (String × Json)}
    (whole : ∀ value ∈ members.map Prod.snd, value.Whole) : (Json.object members).Whole :=
  .object fun _ member => whole _ (List.mem_map_of_mem member)

end Json

theorem FoundCommand.whole_toJson (command : FoundCommand) : command.toJson.Whole := by
  refine Json.Whole.of_values ?_
  simp only [List.map_cons, List.map_nil, List.forall_mem_cons]
  exact ⟨.string _, .string _, .word _, .word _, .word _, .word _, .word _, .word _,
    .optional Json.Whole.string _, by simp⟩

theorem SiteReport.whole_toJson (report : SiteReport) : report.toJson.Whole := by
  refine Json.Whole.of_values ?_
  simp only [List.map_cons, List.map_nil, List.forall_mem_cons]
  exact ⟨.string _, .string _, .string _, .string _, .word _,
    .optional FoundCommand.whole_toJson _, .optional Json.Whole.string _, by simp⟩

theorem FileReport.whole_toJson (report : FileReport) : report.toJson.Whole := by
  have reports : (Json.array (report.reports.map SiteReport.toJson)).Whole := by
    refine .array ?_
    intro item member
    rcases List.mem_map.mp member with ⟨site, _, rfl⟩
    exact site.whole_toJson
  refine Json.Whole.of_values ?_
  simp only [List.map_cons, List.map_nil, List.forall_mem_cons]
  exact ⟨.string _, .string _, .string _, reports, by simp⟩

namespace FileReport

/-- The written form of a report reads back as the report, and no other report is written alike. -/
theorem written_reports_read_back :
    (∀ report, read? (write report) = some report) ∧ Function.Injective write := by
  have readsBack (report : FileReport) : read? (write report) = some report := by
    rw [read?, write, Json.parse?_wide report.whole_toJson, Option.bind_some,
      ofJson?_undoes report]
  refine ⟨readsBack, ?_⟩
  intro first second same
  have read := readsBack first
  rw [same, readsBack] at read
  exact (Option.some.inj read).symm

end FileReport
end CommandWiring
