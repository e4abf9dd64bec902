import SheetCensus.Source.Basic

set_option autoImplicit false

/-! Tokens of a style sheet. A token is a leaf, or a block with the tokens inside it; a function
is a block whose opener carries a name. What is wrong with a text is kept in place as an error
leaf, so that later stages decide which errors matter. -/

namespace SheetCensus.Css

inductive Bracket where
  | curly
  | square
  | round
deriving DecidableEq

namespace Bracket

def opening : Bracket → Char
  | curly => '{'
  | square => '['
  | round => '('

def closing : Bracket → Char
  | curly => '}'
  | square => ']'
  | round => ')'

def ofOpening? (c : Char) : Option Bracket :=
  if c = '{' then some curly else if c = '[' then some square else if c = '(' then some round
  else none

def ofClosing? (c : Char) : Option Bracket :=
  if c = '}' then some curly else if c = ']' then some square else if c = ')' then some round
  else none

theorem ofClosing?_closing (bracket : Bracket) : ofClosing? bracket.closing = some bracket := by
  cases bracket <;> rfl

end Bracket

inductive Opener where
  | bracket (bracket : Bracket)
  | function (name : Text)
deriving DecidableEq

def Opener.closedBy : Opener → Bracket
  | bracket b => b
  | function _ => .round

inductive LexError where
  | unmatched (bracket : Bracket)
  | badString
  | badUrl
  | stringAtEnd
  | urlAtEnd
deriving DecidableEq

inductive Leaf where
  | whitespace (spelling : Text)
  | comment (body : Text)
  | literal (spelling : Text)
  | ident (name : Text)
  | atKeyword (name : Text)
  /-- A hash knows whether what follows the sign could stand alone as a name. -/
  | hash (name : Text) (isIdentifier : Bool)
  | string (value : Text) (closed : Bool)
  | url (value : Text) (closed : Bool)
  | unicodeRange (first last : Nat)
  | number (numeral : Text)
  | percentage (numeral : Text)
  | dimension (numeral unit : Text)
  | error (error : LexError)
deriving DecidableEq

inductive Token where
  | leaf (position : Position) (leaf : Leaf)
  | block (position : Position) (opener : Opener) (content : List Token)

namespace Token

def position : Token → Position
  | leaf position _ => position
  | block position _ _ => position

def isLiteral (spelling : Text) : Token → Bool
  | leaf _ (.literal other) => other == spelling
  | _ => false

def isWhitespace : Token → Bool
  | leaf _ (.whitespace _) => true
  | _ => false

def isInsignificant : Token → Bool
  | leaf _ (.whitespace _) => true
  | leaf _ (.comment _) => true
  | _ => false

/-- The error that the token itself is, with its place; errors inside a block do not count. -/
def error? : Token → Option (LexError × Position)
  | leaf position (.error error) => some (error, position)
  | _ => none

def curlyContent? : Token → Option (List Token)
  | block _ (.bracket .curly) content => some content
  | _ => none

end Token

/-- The kinds of token that messages and the spacing of neighbours tell apart. Each literal is
a kind of its own. -/
inductive Kind where
  | whitespace
  | comment
  | literal (spelling : Text)
  | ident
  | atKeyword
  | hash
  | string
  | url
  | unicodeRange
  | number
  | percentage
  | dimension
  | error
  | block (bracket : Bracket)
  | function
deriving DecidableEq

namespace Kind

def ofLeaf : Leaf → Kind
  | .whitespace _ => whitespace
  | .comment _ => comment
  | .literal spelling => literal spelling
  | .ident _ => ident
  | .atKeyword _ => atKeyword
  | .hash _ _ => hash
  | .string _ _ => string
  | .url _ _ => url
  | .unicodeRange _ _ => unicodeRange
  | .number _ => number
  | .percentage _ => percentage
  | .dimension _ _ => dimension
  | .error _ => error

def ofToken : Token → Kind
  | .leaf _ leaf => ofLeaf leaf
  | .block _ (.bracket bracket) _ => block bracket
  | .block _ (.function _) _ => function

def label : Kind → Text
  | whitespace => "whitespace".toList
  | comment => "comment".toList
  | literal _ => "literal".toList
  | ident => "ident".toList
  | atKeyword => "at-keyword".toList
  | hash => "hash".toList
  | string => "string".toList
  | url => "url".toList
  | unicodeRange => "unicode-range".toList
  | number => "number".toList
  | percentage => "percentage".toList
  | dimension => "dimension".toList
  | error => "error".toList
  | block bracket => [bracket.opening, bracket.closing] ++ " block".toList
  | function => "function".toList

end Kind

end SheetCensus.Css
