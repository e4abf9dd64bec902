import SheetCensus.Order
import SheetCensus.Stylesheet.Fault
import SheetCensus.Text.JsonString

set_option autoImplicit false

/-! Notices that are given while files are taken in: what was read, and what was refused. -/

namespace SheetCensus

inductive Notice where
  | read (eventId file : Text) (length : Nat)
  /-- A style sheet could not be read; `preview` is the beginning of its text. -/
  | refused (preview : Text) (diagnostic : Diagnostic)
  | nothingFound (directory : Text)
deriving DecidableEq

namespace Notice

def isWarning : Notice → Bool
  | refused _ _ => true
  | _ => false

def level (notice : Notice) : Text :=
  if notice.isWarning then "WARNING".toList else "INFO".toList

def text : Notice → Text
  | read eventId file length =>
      "eventId=".toList ++ eventId ++ ", file=".toList ++ file ++ ": read ".toList ++
        Text.ofNat length ++ " characters".toList
  | refused preview diagnostic =>
      "Illegal CSS: ".toList ++ preview.jsonString ++ "... ".toList ++ diagnostic.text
  | nothingFound directory => "No files found in ".toList ++ directory

def precedes (left right : Notice) : Bool :=
  if left.level = right.level then Text.precedes left.text right.text
  else Text.precedes left.level right.level

/-- Notices in order. Workers give them in any order, so only this one tells something. -/
def sorted (notices : List Notice) : List Notice :=
  inOrder precedes notices

end Notice

end SheetCensus
