import SheetCensus.Census.Record

set_option autoImplicit false

/-! The report as comma-separated values. Rows end with a line feed; a field is put between
double quotes, with each double quote inside written twice, when it holds a comma, a double
quote or a line feed, and only then. -/

namespace SheetCensus

namespace Csv

def needsQuotes (field : Text) : Bool :=
  field.any (fun c => c == ',' || c == '"' || c == '\n')

def doubled (field : Text) : Text :=
  field.flatMap (fun c => if c = '"' then ['"', '"'] else [c])

def fieldText (field : Text) : Text :=
  if needsQuotes field then '"' :: doubled field ++ ['"'] else field

def rowText (fields : List Text) : Text :=
  Text.join [','] (fields.map fieldText) ++ ['\n']

def tableText (rows : List (List Text)) : Text :=
  rows.flatMap rowText

end Csv

namespace Record

def columns : List Text :=
  ["eventId".toList, "length".toList, "emptyStylesheet".toList, "backgroundSelectors".toList,
    "colorSelectors".toList, "backgroundIsOverriddenWithImage".toList, "error".toList,
    "digest".toList, "errorStack".toList]

def row (record : Record) : List Text :=
  [record.eventId, Text.ofInt record.length, Text.ofInt record.emptyStylesheet,
    Text.ofInt record.backgroundSelectors, Text.ofInt record.colorSelectors,
    Text.ofInt record.backgroundIsOverriddenWithImage, Text.ofInt record.error, record.digest,
    record.errorStack]

end Record

def report (records : List Record) : Text :=
  Csv.tableText (Record.columns :: records.map Record.row)

end SheetCensus
