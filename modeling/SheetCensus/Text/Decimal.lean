import SheetCensus.Text.Blank

set_option autoImplicit false

/-! Integers as a user may type them: blanks around them, a sign, the decimal digits of any
script, and single underscores between digits. -/

namespace SheetCensus.Text

/-- The digit zero of every script that has decimal digits; the other nine follow it. -/
def zeros : List Nat :=
  [0x30, 0x660, 0x6f0, 0x7c0, 0x966, 0x9e6, 0xa66, 0xae6, 0xb66, 0xbe6, 0xc66, 0xce6, 0xd66, 0xde6,
    0xe50, 0xed0, 0xf20, 0x1040, 0x1090, 0x17e0, 0x1810, 0x1946, 0x19d0, 0x1a80, 0x1a90, 0x1b50,
    0x1bb0, 0x1c40, 0x1c50, 0xa620, 0xa8d0, 0xa900, 0xa9d0, 0xa9f0, 0xaa50, 0xabf0, 0xff10,
    0x104a0, 0x10d30, 0x11066, 0x110f0, 0x11136, 0x111d0, 0x112f0, 0x11450, 0x114d0, 0x11650,
    0x116c0, 0x11730, 0x118e0, 0x11950, 0x11c50, 0x11d50, 0x11da0, 0x16a60, 0x16ac0, 0x16b50,
    0x1d7ce, 0x1d7d8, 0x1d7e2, 0x1d7ec, 0x1d7f6, 0x1e140, 0x1e2f0, 0x1e950, 0x1fbf0]

def digitValue? (c : Char) : Option Nat :=
  (zeros.find? (fun low => low ≤ c.toNat && c.toNat ≤ low + 9)).map (c.toNat - ·)

def digits? : Text → Option (List Nat)
  | [] => none
  | [c] => (digitValue? c).map ([·])
  | c :: '_' :: rest =>
      match digitValue? c, digits? rest with
      | some digit, some others => some (digit :: others)
      | _, _ => none
  | c :: rest =>
      match digitValue? c, digits? rest with
      | some digit, some others => some (digit :: others)
      | _, _ => none

/-- The number of at most 4300 digits that a text without sign spells. -/
def readNat? (text : Text) : Option Nat :=
  match digits? text with
  | none => none
  | some digits =>
      if 4300 < digits.length then none
      else some (digits.foldl (fun number digit => number * 10 + digit) 0)

/-- A blank that may stand around a number. The information separators may not. -/
def isOuterBlank (c : Char) : Bool :=
  isBlank c && !(0x1c ≤ c.toNat && c.toNat ≤ 0x1f)

def readInt? (text : Text) : Option Int :=
  match text.trimOf isOuterBlank with
  | '-' :: rest => (readNat? rest).map (fun number => -(number : Int))
  | '+' :: rest => (readNat? rest).map (fun number => (number : Int))
  | rest => (readNat? rest).map (fun number => (number : Int))

end SheetCensus.Text
