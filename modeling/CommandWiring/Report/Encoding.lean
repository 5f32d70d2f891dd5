import CommandWiring.Extraction.TypeSet
import CommandWiring.Json.Printer
import CommandWiring.Json.Reader
import CommandWiring.Node.Kind
import CommandWiring.Report.Basic

/-!
# Reports in JSON

Every record is an object whose members stand in the order of its fields, and what is absent is
null. A record can also be read from an array of all its fields in that order. Members of other
names are passed over, a missing member is read as absent where the field may be absent, and is
refused otherwise.
-/

namespace CommandWiring

/-!
# Reasons and kinds

A value without data is written as its label, and may also be read from an object that has the label
as its only member, with null.
-/

namespace MissReason

def plainLabels : List (String × MissReason) :=
  [("malformed_chain", malformedChain),
    ("no_supplier_argument", noSupplierArgument),
    ("unrecognized_supplier_kind", unrecognizedSupplierKind),
    ("no_command_constructor", noCommandConstructor),
    ("no_enclosing_method", noEnclosingMethod),
    ("variable_not_resolved", variableNotResolved),
    ("method_reference_not_command", methodReferenceNotCommand),
    ("no_block_in_anonymous_binder", noBlockInAnonymousBinder),
    ("no_constructor_lambda", noConstructorLambda)]

def countLabel : String :=
  "ambiguous_constructor_lambda"

def toJson : MissReason -> Json
  | malformedChain => .string "malformed_chain"
  | noSupplierArgument => .string "no_supplier_argument"
  | unrecognizedSupplierKind => .string "unrecognized_supplier_kind"
  | noCommandConstructor => .string "no_command_constructor"
  | noEnclosingMethod => .string "no_enclosing_method"
  | variableNotResolved => .string "variable_not_resolved"
  | methodReferenceNotCommand => .string "method_reference_not_command"
  | noBlockInAnonymousBinder => .string "no_block_in_anonymous_binder"
  | noConstructorLambda => .string "no_constructor_lambda"
  | ambiguousConstructorLambda count => .object [(countLabel, Json.nat count)]

end MissReason

namespace Json

def label? : Json -> Option String
  | .string text => some text
  | .object [(text, .null)] => some text
  | _ => none

end Json

namespace MissReason

def ofJson? (value : Json) : Option MissReason :=
  match value with
  | .object [(label, content)] =>
      if label = countLabel then
        (content.natBelow? UInt64.size).map ambiguousConstructorLambda
      else value.label?.bind fun label => plainLabels.lookup label
  | _ => value.label?.bind fun label => plainLabels.lookup label

end MissReason

def NodeKind.ofJson? (value : Json) : Option NodeKind :=
  value.label?.bind NodeKind.ofLabel?

def MatchKind.ofJson? (value : Json) : Option MatchKind :=
  value.label?.bind MatchKind.ofLabel?

def SiteKind.ofJson? (value : Json) : Option SiteKind :=
  value.label?.bind SiteKind.ofLabel?

/-!
# Fields
-/

namespace Json

def word (n : UInt32) : Json :=
  nat n.toNat

def word? (value : Json) : Option UInt32 :=
  (value.natBelow? UInt32.size).map UInt32.ofNat

def optional? (decode : Json -> Option α) (value : Json) : Option (Option α) :=
  if value.isNull then some none else (decode value).map some

/-- The fields of a record, in the order of `names`: the items of an array of the same length, or
the members of an object. -/
def fields? (names : List String) : Json -> Option (List (Option Json))
  | .array items => if items.length = names.length then some (items.map some) else none
  | .object members => some (names.map fun name => (Json.object members).member? name)
  | _ => none

def required? (decode : Json -> Option α) (field : Option Json) : Option α :=
  field.bind decode

def allowed? (decode : Json -> Option α) (field : Option Json) : Option (Option α) :=
  match field with
  | none => some none
  | some value => optional? decode value

def list? (decode : Json -> Option α) (value : Json) : Option (List α) :=
  value.items?.bind fun items => items.mapM decode

end Json

/-!
# Records
-/

namespace FoundCommand

def fieldNames : List String :=
  ["kind", "text", "start_line", "start_column", "end_line", "end_column", "start_byte", "end_byte",
    "code_context"]

def toJson (command : FoundCommand) : Json :=
  .object
    [("kind", .string command.kind.label),
      ("text", .string command.text),
      ("start_line", Json.word command.startLine),
      ("start_column", Json.word command.startColumn),
      ("end_line", Json.word command.endLine),
      ("end_column", Json.word command.endColumn),
      ("start_byte", Json.word command.startByte),
      ("end_byte", Json.word command.endByte),
      ("code_context", Json.optional .string command.context?)]

def ofJson? (value : Json) : Option FoundCommand :=
  match Json.fields? fieldNames value with
  | some [kind, text, startLine, startColumn, endLine, endColumn, startByte, endByte, context] => do
      return {
        kind := <- Json.required? MatchKind.ofJson? kind
        text := <- Json.required? Json.string? text
        startLine := <- Json.required? Json.word? startLine
        startColumn := <- Json.required? Json.word? startColumn
        endLine := <- Json.required? Json.word? endLine
        endColumn := <- Json.required? Json.word? endColumn
        startByte := <- Json.required? Json.word? startByte
        endByte := <- Json.required? Json.word? endByte
        context? := <- Json.allowed? Json.string? context }
  | _ => none

end FoundCommand

namespace SiteReport

def fieldNames : List String :=
  ["id", "file_path", "site_kind", "site_name", "site_line", "command", "reason"]

def toJson (report : SiteReport) : Json :=
  .object
    [("id", .string report.id),
      ("file_path", .string report.filePath),
      ("site_kind", .string report.siteKind.label),
      ("site_name", .string report.siteName),
      ("site_line", Json.word report.siteLine),
      ("command", Json.optional FoundCommand.toJson report.command?),
      ("reason", Json.optional .string report.reason?)]

def ofJson? (value : Json) : Option SiteReport :=
  match Json.fields? fieldNames value with
  | some [id, filePath, siteKind, siteName, siteLine, command, reason] => do
      return {
        id := <- Json.required? Json.string? id
        filePath := <- Json.required? Json.string? filePath
        siteKind := <- Json.required? SiteKind.ofJson? siteKind
        siteName := <- Json.required? Json.string? siteName
        siteLine := <- Json.required? Json.word? siteLine
        command? := <- Json.allowed? FoundCommand.ofJson? command
        reason? := <- Json.allowed? Json.string? reason }
  | _ => none

end SiteReport

namespace FileReport

def fieldNames : List String :=
  ["file_path", "language", "content_hash", "reports"]

def toJson (report : FileReport) : Json :=
  .object
    [("file_path", .string report.filePath),
      ("language", .string report.language),
      ("content_hash", .string report.contentHash),
      ("reports", .array (report.reports.map SiteReport.toJson))]

def ofJson? (value : Json) : Option FileReport :=
  match Json.fields? fieldNames value with
  | some [filePath, language, contentHash, reports] => do
      return {
        filePath := <- Json.required? Json.string? filePath
        language := <- Json.required? Json.string? language
        contentHash := <- Json.required? Json.string? contentHash
        reports := <- Json.required? (Json.list? SiteReport.ofJson?) reports }
  | _ => none

def write (report : FileReport) : String :=
  report.toJson.wide

def read? (text : String) : Option FileReport :=
  (Json.parse? text).bind ofJson?

end FileReport

def Summary.toJson (summary : Summary) : Json :=
  .object
    [("files", Json.nat summary.files),
      ("sites", Json.nat summary.sites),
      ("commands", Json.nat summary.commands),
      ("unresolved", Json.nat summary.unresolved)]

def TypeSet.toJson (types : TypeSet) : Json :=
  .object [("names", Json.strings types.names)]

end CommandWiring
