import SheetCensus.Census.Pattern
import SheetCensus.Census.Record
import SheetCensus.Stylesheet.Reading

set_option autoImplicit false

/-! The census of a style sheet. Each rule counts at most once for a background colour, once for
a colour, and once more when it sets a background colour and replaces it by an image. -/

namespace SheetCensus

def isBackgroundSelector (selector : Text) : Bool :=
  Pattern.background.occursIn selector

def isColorSelector (selector : Text) : Bool :=
  Pattern.color.occursIn selector

/-- Whether a declaration sets a background to an address. The case of both words counts. -/
def Declaration.isBackgroundImage (declaration : Declaration) : Bool :=
  "background".toList.isPrefixOf declaration.property &&
    "url".toList.isPrefixOf declaration.value

namespace Rule

def hasBackground (rule : Rule) : Bool :=
  (rule.selectors.getD []).any isBackgroundSelector

def hasColor (rule : Rule) : Bool :=
  (rule.selectors.getD []).any isColorSelector

def hasImage (rule : Rule) : Bool :=
  (rule.declarations.getD []).any Declaration.isBackgroundImage

end Rule

namespace Record

def tick (number : Int) (condition : Bool) : Int :=
  if condition then number + 1 else number

def countRule (record : Record) (rule : Rule) : Record :=
  { record with
    backgroundSelectors := tick record.backgroundSelectors rule.hasBackground
    colorSelectors := tick record.colorSelectors rule.hasColor
    backgroundIsOverriddenWithImage :=
      tick record.backgroundIsOverriddenWithImage (rule.hasBackground && rule.hasImage) }

/-- Counts the rules of a sheet on top of a record. A sheet without rules only sets its flag. -/
def count (record : Record) (rules : List Rule) : Record :=
  match rules with
  | [] => { record with emptyStylesheet := 1 }
  | rules => rules.foldl countRule record

def countSheet (record : Record) (sheet : Stylesheet) : Record :=
  record.count sheet.ruleList

/-- Reads a text without a label and takes it into a record, as a count or as a failure. -/
def takeIn (record : Record) (text : Text) (digestLength : Int) : Except Nat Record :=
  match Stylesheet.read text none with
  | .ok sheet => .ok (record.countSheet sheet)
  | .error (.fault fault) =>
      .ok (record.failed text fault.diagnostic.text digestLength)
  | .error (.oversized digits) => .error digits

/-- Takes texts into a record one after the other; the record after each of them. -/
def takeInAll (record : Record) (digestLength : Int) : List Text → Except Nat (List Record)
  | [] => .ok []
  | text :: others =>
      match record.takeIn text digestLength with
      | .error digits => .error digits
      | .ok next =>
          match next.takeInAll digestLength others with
          | .error digits => .error digits
          | .ok records => .ok (next :: records)

end Record

end SheetCensus
