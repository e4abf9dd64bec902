import SheetCensus.Css.Nesting
import SheetCensus.Stylesheet.Fault

set_option autoImplicit false

/-! The end of the text. Blocks and a comment that are still open there are closed without a
word, so the check looks at the text itself: whatever is open lies on the chain of last tokens,
and the closing marks of that chain, from the innermost outward, are compared with the end of
the text as each one is added. -/

namespace SheetCensus

open Css

/-- The chain of last tokens: the blocks on it, the innermost first, and the comment at its
end if there is one. -/
structure Ending where
  blocks : List (Position × Bracket)
  comment : Option (Position × Text)

namespace Ending

def empty : Ending :=
  ⟨[], none⟩

def inside (ending : Ending) (position : Position) (bracket : Bracket) : Ending :=
  ⟨ending.blocks ++ [(position, bracket)], ending.comment⟩

mutual

def ofToken : Token → Ending
  | .leaf position (.comment body) => ⟨[], some (position, body)⟩
  | .leaf _ _ => empty
  | .block position opener content => (ofTokens content).inside position opener.closedBy

def ofTokens : List Token → Ending
  | [] => empty
  | [token] => ofToken token
  | _ :: token :: others => ofTokens (token :: others)

end

/-- The closing marks of a comment's end, read backwards: the comment itself, reversed. -/
def commentTail : Option (Position × Text) → Text
  | none => []
  | some (_, body) => ['/', '*'] ++ body.reverse ++ ['*', '/']

/-- The first block whose closing mark, after all the marks inside it, does not end the text.
Both the text and the marks are reversed. -/
def openBlock? (label : Option Text) (reversed : Text) (tail : Text) :
    List (Position × Bracket) → Option Fault
  | [] => none
  | (position, bracket) :: outer =>
      let tail := bracket.closing :: tail
      if tail.isPrefixOf reversed then openBlock? label reversed tail outer
      else some ⟨.blockOpen bracket, position, label⟩

/-- What is left open at the end of a text with this chain, if the check sees it. -/
def fault? (ending : Ending) (text : Text) (label : Option Text) : Option Fault :=
  let reversed := text.reverse
  let tail := commentTail ending.comment
  match ending.comment with
  | some (position, _) =>
      if tail.isPrefixOf reversed then openBlock? label reversed tail ending.blocks
      else some ⟨.commentOpen, position, label⟩
  | none => openBlock? label reversed tail ending.blocks

end Ending

end SheetCensus
