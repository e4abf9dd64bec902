import SheetCensus.Text.Basic

set_option autoImplicit false

/-! What a style sheet holds once it is read: its top-level rules in order. A list that is
missing differs from an empty one: an at-rule has no selectors at all, and a sheet in which
nothing stands has no list of rules. -/

namespace SheetCensus

structure Declaration where
  property : Text
  value : Text
deriving DecidableEq

structure Rule where
  /-- The word `rule` for a style rule, the keyword in lower case for an at-rule. -/
  type : Text
  selectors : Option (List Text)
  declarations : Option (List Declaration)
deriving DecidableEq

def Rule.styleType : Text :=
  "rule".toList

structure Stylesheet where
  rules : Option (List Rule)
  source : Option Text
deriving DecidableEq

def Stylesheet.ruleList (sheet : Stylesheet) : List Rule :=
  sheet.rules.getD []

end SheetCensus
