import SheetCensus.Css.Token

set_option autoImplicit false

/-! The top level of a style sheet: at-rules and style rules. A construct is read token by
token; between two constructs white space and the marks of an enclosing document are skipped,
and a rule that has begun collects its prelude until its block. -/

namespace SheetCensus.Css

inductive Construct where
  | atRule (position : Position) (keyword : Text) (prelude : List Token)
      (body : Option (List Token))
  | styleRule (position : Position) (prelude body : List Token)
  /-- A style rule that the text ends before its block, with the place of its last token. -/
  | unfinished (position : Position)

inductive Beginning where
  | atRule (position : Position) (keyword : Text)
  | styleRule (position : Position)

namespace Construct

def ofBlock (beginning : Beginning) (prelude body : List Token) : Construct :=
  match beginning with
  | .atRule position keyword => atRule position keyword prelude (some body)
  | .styleRule position => styleRule position prelude body

/-- The construct that ends with the text. `recent` is the prelude, the last token first. -/
def ofEnd (beginning : Beginning) (recent : List Token) : Construct :=
  match beginning with
  | .atRule position keyword => atRule position keyword recent.reverse none
  | .styleRule position => unfinished ((recent.head?.map Token.position).getD position)

def isBetween (token : Token) : Bool :=
  token.isInsignificant || token.isLiteral ['<', '!', '-', '-'] || token.isLiteral ['-', '-', '>']

def beginning : Token → Beginning × List Token
  | .leaf position (.atKeyword name) => (.atRule position name, [])
  | token => (.styleRule token.position, [token])

def endsAtSemicolon : Beginning → Bool
  | .atRule _ _ => true
  | .styleRule _ => false

/-- The constructs of the remaining tokens, given the one that has begun and its prelude, the
last token first. -/
def listAfter : Option (Beginning × List Token) → List Token → List Construct
  | none, [] => []
  | some (begun, recent), [] => [ofEnd begun recent]
  | none, token :: rest =>
      match token.curlyContent? with
      | some body => styleRule token.position [] body :: listAfter none rest
      | none =>
          if isBetween token then listAfter none rest
          else listAfter (some (beginning token)) rest
  | some (begun, recent), token :: rest =>
      match token.curlyContent? with
      | some body => ofBlock begun recent.reverse body :: listAfter none rest
      | none =>
          if endsAtSemicolon begun && token.isLiteral [';'] then
            ofEnd begun recent :: listAfter none rest
          else listAfter (some (begun, token :: recent)) rest

end Construct

def constructs (tokens : List Token) : List Construct :=
  Construct.listAfter none tokens

end SheetCensus.Css
