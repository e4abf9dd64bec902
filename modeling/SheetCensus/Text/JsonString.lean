import SheetCensus.Text.Basic

set_option autoImplicit false

/-! String literals of JSON in pure ASCII. A character outside the visible ASCII range is
written by one unit of UTF-16, or by two when it lies beyond the basic plane. -/

namespace SheetCensus.Text

def unitEscape (unit : Nat) : Text :=
  ['\\', 'u'] ++ fixedHex 4 unit

def jsonChar (c : Char) : Text :=
  if c = '"' then ['\\', '"']
  else if c = '\\' then ['\\', '\\']
  else if c = '\n' then ['\\', 'n']
  else if c = '\r' then ['\\', 'r']
  else if c = '\t' then ['\\', 't']
  else if c = '\x0c' then ['\\', 'f']
  else if c = '\x08' then ['\\', 'b']
  else if 0x20 ≤ c.toNat ∧ c.toNat ≤ 0x7e then [c]
  else if c.toNat < 0x10000 then unitEscape c.toNat
  else
    unitEscape (0xd800 + (c.toNat - 0x10000) / 0x400) ++
      unitEscape (0xdc00 + (c.toNat - 0x10000) % 0x400)

def jsonString (text : Text) : Text :=
  '"' :: text.flatMap jsonChar ++ ['"']

end SheetCensus.Text
