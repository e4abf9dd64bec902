import SheetCensus.Css.Token
import SheetCensus.Css.Character

set_option autoImplicit false

/-! Tokens written out again. Every token is written so that it would be read as itself, and an
empty comment goes between two neighbours that would otherwise run together. -/

namespace SheetCensus.Css

/-- The escape of a line end by its number; every other character escapes itself. -/
def escapedBreak? (c : Char) : Option Text :=
  if c = '\n' then some ['\\', 'A', ' ']
  else if c = '\r' then some ['\\', 'D', ' ']
  else if c = '\x0c' then some ['\\', 'C', ' ']
  else none

def nameCharText (c : Char) : Text :=
  if isNameChar c then [c] else (escapedBreak? c).getD ['\\', c]

def nameText (name : Text) : Text :=
  name.flatMap nameCharText

/-- The character that an identifier begins with. A digit is escaped by its number. -/
def firstCharText (c : Char) : Text :=
  if isNameStart c then [c]
  else if isDigit c then ['\\', '3', c, ' ']
  else (escapedBreak? c).getD ['\\', c]

def identText : Text → Text
  | [] => []
  | ['-'] => ['\\', '-']
  | '-' :: '-' :: rest => '-' :: '-' :: nameText rest
  | '-' :: c :: rest => '-' :: firstCharText c ++ nameText rest
  | c :: rest => firstCharText c ++ nameText rest

/-- A unit after a numeral. One that would be read as an exponent has its first letter
escaped. -/
def unitText (unit : Text) : Text :=
  match unit with
  | [] => []
  | c :: rest =>
      if (c = 'e' ∨ c = 'E') ∧ (rest = [] ∨ rest.head? = some '-') then
        ['\\', '6', '5', ' '] ++ nameText rest
      else identText unit

def stringCharText (c : Char) : Text :=
  if c = '"' ∨ c = '\\' then ['\\', c] else (escapedBreak? c).getD [c]

def urlCharText (c : Char) : Text :=
  if c ∈ ['\'', '"', '\\', ' ', '(', ')'] then ['\\', c]
  else if c = '\t' then ['\\', '9', ' ']
  else (escapedBreak? c).getD [c]

def codePointText (number : Nat) : Text :=
  (Nat.toDigits 16 number).map Char.toUpper

/-- The text of an error. What the end of the text breaks off has no text of its own. -/
def errorText : LexError → Text
  | .unmatched bracket => [bracket.closing]
  | .badString => "\"[bad string]\n".toList
  | .badUrl => "url([bad url])".toList
  | .stringAtEnd => []
  | .urlAtEnd => []

def leafText : Leaf → Text
  | .whitespace spelling => spelling
  | .comment body => ['/', '*'] ++ body ++ ['*', '/']
  | .literal spelling => spelling
  | .ident name => identText name
  | .atKeyword name => '@' :: identText name
  | .hash name isIdentifier => '#' :: if isIdentifier then identText name else nameText name
  | .string value closed => '"' :: value.flatMap stringCharText ++ if closed then ['"'] else []
  | .url value closed =>
      ['u', 'r', 'l', '('] ++ value.flatMap urlCharText ++ if closed then [')'] else []
  | .unicodeRange first last =>
      ['U', '+'] ++ codePointText first ++
        if first = last then [] else '-' :: codePointText last
  | .number numeral => numeral
  | .percentage numeral => numeral ++ ['%']
  | .dimension numeral unit => numeral ++ unitText unit
  | .error error => errorText error

def openerText : Opener → Text
  | .bracket bracket => [bracket.opening]
  | .function name => identText name ++ ['(']

namespace Kind

def isLiteralOf (spellings : List Text) : Kind → Bool
  | literal spelling => spellings.contains spelling
  | _ => false

def beginsName (kind : Kind) : Bool :=
  kind = ident || kind = function || kind = url

def beginsNumeral (kind : Kind) : Bool :=
  kind = number || kind = percentage || kind = dimension

def endsName (kind : Kind) : Bool :=
  kind = ident || kind = atKeyword || kind = hash || kind = dimension

def runsInto (left right : Kind) : Bool :=
  ((left.endsName || left = number || left.isLiteralOf [['#'], ['-']]) &&
    (right.beginsName || right.beginsNumeral || right = unicodeRange)) ||
  (left.endsName && right.isLiteralOf [['-'], ['-', '-', '>']]) ||
  ((left = number || left.isLiteralOf [['#'], ['-'], ['@']]) && right.beginsName) ||
  ((left = unicodeRange || left.isLiteralOf [['.'], ['+']]) && right.beginsNumeral) ||
  (left.isLiteralOf [['@']] &&
    (right.beginsName || right = unicodeRange || right.isLiteralOf [['-']])) ||
  (left = unicodeRange && (right = ident || right = function || right.isLiteralOf [['?']])) ||
  (left.isLiteralOf [['$'], ['*'], ['^'], ['~'], ['|']] && right.isLiteralOf [['=']]) ||
  (left = ident && right = block .round) ||
  (left.isLiteralOf [['|']] && right.isLiteralOf [['|']]) ||
  (left.isLiteralOf [['/']] && right.isLiteralOf [['*']])

end Kind

def separator (left : Option Kind) (right : Kind) : Text :=
  if left.any (fun kind => kind.runsInto right) then ['/', '*', '*', '/'] else []

mutual

/-- The text of a token. A block is closed even where the end of the text closed it. -/
def tokenText : Token → Text
  | .leaf _ leaf => leafText leaf
  | .block _ opener content =>
      openerText opener ++ tokensTextAfter none content ++ [opener.closedBy.closing]

def tokensTextAfter : Option Kind → List Token → Text
  | _, [] => []
  | left, token :: others =>
      separator left (Kind.ofToken token) ++ tokenText token ++
        tokensTextAfter (some (Kind.ofToken token)) others

end

def tokensText (tokens : List Token) : Text :=
  tokensTextAfter none tokens

end SheetCensus.Css
