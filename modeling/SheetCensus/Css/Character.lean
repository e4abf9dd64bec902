import SheetCensus.Text.Basic

set_option autoImplicit false

/-! The character classes that division into tokens looks at. All of them are decided by ASCII,
except that every character beyond ASCII may stand in a name. -/

namespace SheetCensus.Css

/-- Space, line feed and tab. Other line ends are gone from a normalized text. -/
def isSpace (c : Char) : Bool :=
  c == ' ' || c == '\n' || c == '\t'

def isDigit (c : Char) : Bool :=
  '0'.toNat ≤ c.toNat && c.toNat ≤ '9'.toNat

def isHexDigit (c : Char) : Bool :=
  isDigit c || ('a'.toNat ≤ c.toNat && c.toNat ≤ 'f'.toNat) ||
    ('A'.toNat ≤ c.toNat && c.toNat ≤ 'F'.toNat)

def hexDigitValue (c : Char) : Nat :=
  if isDigit c then c.toNat - '0'.toNat
  else if 'a'.toNat ≤ c.toNat then c.toNat - 'a'.toNat + 10
  else c.toNat - 'A'.toNat + 10

def hexValue (digits : Text) : Nat :=
  digits.foldl (fun number digit => number * 16 + hexDigitValue digit) 0

theorem hexValue_concat (digits : Text) (last : Char) :
    hexValue (digits ++ [last]) = hexValue digits * 16 + hexDigitValue last := by
  unfold hexValue
  rw [List.foldl_append]
  rfl

def isNameStart (c : Char) : Bool :=
  ('a'.toNat ≤ c.toNat && c.toNat ≤ 'z'.toNat) || ('A'.toNat ≤ c.toNat && c.toNat ≤ 'Z'.toNat) ||
    c == '_' || 0x7f < c.toNat

def isNameChar (c : Char) : Bool :=
  isNameStart c || isDigit c || c == '-'

/-- Whether the text begins with a backslash that escapes something: any but one before a line
feed. At the very end of a text a backslash escapes too. -/
def startsEscape : Text → Bool
  | '\\' :: rest => rest.head? != some '\n'
  | _ => false

def startsIdent : Text → Bool
  | [] => false
  | '-' :: rest => rest.head?.any (fun c => isNameStart c || c == '-') || startsEscape rest
  | c :: rest => isNameStart c || startsEscape (c :: rest)

end SheetCensus.Css
