import SheetCensus.Encoding.Utf8

set_option autoImplicit false

/-! The encodings that are built in, the names they go by, and what is said of bytes that do not
decode. -/

namespace SheetCensus

inductive Encoding where
  | utf8
  /-- UTF-8 after a mark that is dropped if it is there. -/
  | markedUtf8
  | latin1
  | ascii
deriving DecidableEq

/-- Bytes that do not decode: the name of the code, the first of them, how many they are, the
value of the first, and why. -/
structure DecodeFault where
  code : Text
  first : Nat
  count : Nat
  byte : UInt8
  reason : Text
deriving DecidableEq

namespace DecodeFault

def message (fault : DecodeFault) : Text :=
  let bytes :=
    if fault.count = 1 then
      "byte 0x".toList ++ Text.fixedHex 2 fault.byte.toNat ++ " in position ".toList ++
        Text.ofNat fault.first
    else
      "bytes in position ".toList ++ Text.ofNat fault.first ++ ['-'] ++
        Text.ofNat (fault.first + fault.count - 1)
  ['\''] ++ fault.code ++ "' codec can't decode ".toList ++ bytes ++ [':', ' '] ++ fault.reason

end DecodeFault

namespace Encoding

/-- What a name is compared by: its letters in lower case, its digits and dots, and an underscore
for whatever stands between them. -/
def canonical (name : Text) : Text :=
  let marked := name.map (fun c => if c.isAlphanum || c == '.' then c.toLower else '_')
  Text.join ['_'] ((Text.splitAt '_' marked).filter (fun part => !part.isEmpty))

/-- The names of an encoding: its own, and the others that stand for it. -/
def names : Encoding → Text × List Text
  | utf8 =>
      ("utf_8".toList,
        ["u8".toList, "utf".toList, "utf8".toList, "utf8_ucs2".toList, "utf8_ucs4".toList,
          "cp65001".toList])
  | markedUtf8 => ("utf_8_sig".toList, [])
  | latin1 =>
      ("latin_1".toList,
        ["8859".toList, "cp819".toList, "csisolatin1".toList, "ibm819".toList, "iso8859".toList,
          "iso8859_1".toList, "iso_8859_1".toList, "iso_8859_1_1987".toList, "iso_ir_100".toList,
          "l1".toList, "latin".toList, "latin1".toList])
  | ascii =>
      ("ascii".toList,
        ["646".toList, "ansi_x3.4_1968".toList, "ansi_x3.4_1986".toList, "ansi_x3_4_1968".toList,
          "cp367".toList, "csascii".toList, "ibm367".toList, "iso646_us".toList,
          "iso_646.irv_1991".toList, "iso_ir_6".toList, "us".toList, "us_ascii".toList])

/-- Whether an encoding goes by a name. Dots in the name may stand for underscores, but not in the
encoding's own name. -/
def goesBy (name : Text) (code : Encoding) : Bool :=
  let spelled := canonical name
  spelled == code.names.1 || code.names.2.contains spelled ||
    code.names.2.contains (spelled.map (fun c => if c = '.' then '_' else c))

/-- The encoding with a given name. A null character is in no name. -/
def ofName? (name : Text) : Option Encoding :=
  if name.contains '\x00' then none
  else [utf8, markedUtf8, latin1, ascii].find? (goesBy name)

def mark : List UInt8 :=
  [0xef, 0xbb, 0xbf]

def withoutMark (bytes : List UInt8) : List UInt8 :=
  if mark.isPrefixOf bytes then bytes.drop mark.length else bytes

def reasonText : Utf8.Reason → Text
  | .invalidStart => "invalid start byte".toList
  | .invalidContinuation => "invalid continuation byte".toList
  | .truncated => "unexpected end of data".toList

def decodeUtf8 (bytes : List UInt8) : Except DecodeFault Text :=
  (Utf8.decode bytes).mapError (fun fault =>
    ⟨"utf-8".toList, fault.first, fault.count, bytes.getD fault.first 0,
      reasonText fault.reason⟩)

def decodeAscii (index : Nat) : List UInt8 → Except DecodeFault Text
  | [] => .ok []
  | byte :: rest =>
      if byte.toNat < 128 then (decodeAscii (index + 1) rest).map (Char.ofNat byte.toNat :: ·)
      else .error ⟨"ascii".toList, index, 1, byte, "ordinal not in range(128)".toList⟩

def decode : Encoding → List UInt8 → Except DecodeFault Text
  | utf8, bytes => decodeUtf8 bytes
  | markedUtf8, bytes => decodeUtf8 (withoutMark bytes)
  | latin1, bytes => .ok (bytes.map (fun byte => Char.ofNat byte.toNat))
  | ascii, bytes => decodeAscii 0 bytes

end Encoding

end SheetCensus
