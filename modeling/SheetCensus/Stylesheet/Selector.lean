import SheetCensus.Css.Serialization
import SheetCensus.Text.Blank

set_option autoImplicit false

/-! The selectors of a style rule: the parts of its prelude between top-level commas, each
written out with its blanks collapsed. A part that comes out empty is no selector. -/

namespace SheetCensus

open Css

namespace Selector

/-- The parts of a list of tokens between its top-level commas; always one more than there are
commas. -/
def groups : List Token → List (List Token)
  | [] => [[]]
  | token :: rest =>
      if token.isLiteral [','] then [] :: groups rest
      else
        match groups rest with
        | [] => [[token]]
        | group :: others => (token :: group) :: others

theorem groups_ne_nil (tokens : List Token) : groups tokens ≠ [] := by
  cases tokens with
  | nil => exact List.cons_ne_nil _ _
  | cons token rest =>
      unfold groups
      split
      · exact List.cons_ne_nil _ _
      · split <;> exact List.cons_ne_nil _ _

/-- A comma parts the groups on its two sides. -/
theorem groups_append_comma (left right : List Token) (comma : Token)
    (isComma : comma.isLiteral [','] = true) :
    groups (left ++ comma :: right) = groups left ++ groups right := by
  induction left with
  | nil => simp only [List.nil_append, groups, isComma, if_true, List.singleton_append]
  | cons token rest ih =>
      simp only [List.cons_append, groups, ih]
      split
      · rfl
      · cases first : groups rest with
        | nil => exact absurd first (groups_ne_nil rest)
        | cons group others => rfl

def text (group : List Token) : Text :=
  (tokensText group).collapse

def list (prelude : List Token) : List Text :=
  ((groups prelude).map text).filter (fun selector => !selector.isEmpty)

end Selector

end SheetCensus
