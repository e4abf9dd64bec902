import SheetCensus.Stylesheet.Fault

set_option autoImplicit false

/-! The record of one style sheet: who it belongs to, what was counted in it, and what became
of it when it could not be read. -/

namespace SheetCensus

/-- One row of the report. The flags `emptyStylesheet` and `error` are numbers, so that they
can be summed with the counters. -/
structure Record where
  eventId : Text
  length : Int
  emptyStylesheet : Int
  backgroundSelectors : Int
  colorSelectors : Int
  backgroundIsOverriddenWithImage : Int
  error : Int
  digest : Text
  errorStack : Text
deriving DecidableEq

namespace Record

def blank : Record :=
  ⟨[], 0, 0, 0, 0, 0, 0, [], []⟩

def initial (eventId : Text) (length : Int) : Record :=
  { blank with eventId := eventId, length := length }

def errorClass : Text :=
  "stylestats.stylesheet.errors.ParseError".toList

/-- The error text of a record: the class of the error and, after a colon, what it says. Line
feeds at the end are dropped. -/
def stackText (message : Text) : Text :=
  let whole := errorClass ++ if message.isEmpty then [] else [':', ' '] ++ message
  (whole.reverse.dropWhile (· == '\n')).reverse

def failed (earlier : Record) (content : Text) (message : Text) (digestLength : Int) : Record :=
  { earlier with
    error := 1
    digest := content.clip digestLength
    errorStack := stackText message }

end Record

end SheetCensus
