import SheetCensus.Text.Basic

set_option autoImplicit false

/-! A quoted name, as error texts show names of files. The quote is the apostrophe unless the
name holds one and no double quote. The quote used and the backslash take a backslash in
front; a character that has no visible form is written by its number. -/

namespace SheetCensus.Text

/-- Code points without a visible form: controls, blanks other than the space, formatting
characters, private use and the positions that are no characters. -/
def invisibleRanges : List (Nat × Nat) :=
  [(0x00, 0x1f), (0x7f, 0xa0), (0xad, 0xad), (0x600, 0x605), (0x61c, 0x61c), (0x6dd, 0x6dd),
    (0x70f, 0x70f), (0x890, 0x891), (0x8e2, 0x8e2), (0x1680, 0x1680), (0x180e, 0x180e),
    (0x2000, 0x200f), (0x2028, 0x202f), (0x205f, 0x206f), (0x3000, 0x3000), (0xd800, 0xf8ff),
    (0xfdd0, 0xfdef), (0xfeff, 0xfeff), (0xfff0, 0xfffb), (0xfffe, 0xffff), (0x110bd, 0x110bd),
    (0x110cd, 0x110cd), (0x13430, 0x13438), (0x1bca0, 0x1bca3), (0x1d173, 0x1d17a),
    (0x1fffe, 0x1ffff), (0x2fffe, 0x2ffff), (0xe0000, 0xe00ff), (0xe01f0, 0x10ffff)]

def isVisible (c : Char) : Bool :=
  !invisibleRanges.any (fun range => range.1 ≤ c.toNat && c.toNat ≤ range.2)

def numbered (c : Char) : Text :=
  if c.toNat ≤ 0xff then ['\\', 'x'] ++ fixedHex 2 c.toNat
  else if c.toNat ≤ 0xffff then ['\\', 'u'] ++ fixedHex 4 c.toNat
  else ['\\', 'U'] ++ fixedHex 8 c.toNat

def quotedChar (quote c : Char) : Text :=
  if c = quote ∨ c = '\\' then ['\\', c]
  else if c = '\n' then ['\\', 'n']
  else if c = '\r' then ['\\', 'r']
  else if c = '\t' then ['\\', 't']
  else if isVisible c then [c]
  else numbered c

def quoteFor (name : Text) : Char :=
  if name.contains '\'' && !name.contains '"' then '"' else '\''

def quoted (name : Text) : Text :=
  let quote := quoteFor name
  quote :: name.flatMap (quotedChar quote) ++ [quote]

end SheetCensus.Text
