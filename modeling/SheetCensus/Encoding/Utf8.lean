import SheetCensus.Text.Basic

set_option autoImplicit false

/-! UTF-8. The encoder writes a character with the fewest bytes; the decoder is a machine that
reads byte by byte. A lead byte fixes how many bytes follow and within which range the next one
lies, which is how forms that are too long, surrogates and numbers beyond Unicode are refused at
their second byte. -/

namespace SheetCensus.Utf8

def continuation (number : Nat) : UInt8 :=
  UInt8.ofNat (0x80 + number % 64)

def encodeChar (c : Char) : List UInt8 :=
  let code := c.toNat
  if code ≤ 0x7f then [UInt8.ofNat code]
  else if code ≤ 0x7ff then [UInt8.ofNat (0xc0 + code / 64), continuation code]
  else if code ≤ 0xffff then
    [UInt8.ofNat (0xe0 + code / 4096), continuation (code / 64), continuation code]
  else
    [UInt8.ofNat (0xf0 + code / 262144), continuation (code / 4096), continuation (code / 64),
      continuation code]

def encode (text : Text) : List UInt8 :=
  text.flatMap encodeChar

inductive Reason where
  | invalidStart
  | invalidContinuation
  | truncated
deriving DecidableEq

/-- The bytes that are refused: their first index, how many they are, and why. -/
structure Fault where
  first : Nat
  count : Nat
  reason : Reason
deriving DecidableEq

/-- A character of which some bytes are read: the index of its lead byte, the number so far,
the range of the next byte and how many bytes are still to come. -/
structure Pending where
  start : Nat
  code : Nat
  low : Nat
  high : Nat
  missing : Nat

inductive Lead where
  | single (c : Char)
  | pending (pending : Pending)
  | invalid

def lead (index byte : Nat) : Lead :=
  if byte ≤ 0x7f then .single (Char.ofNat byte)
  else if byte ≤ 0xc1 then .invalid
  else if byte ≤ 0xdf then .pending ⟨index, byte - 0xc0, 0x80, 0xbf, 1⟩
  else if byte = 0xe0 then .pending ⟨index, 0, 0xa0, 0xbf, 2⟩
  else if byte = 0xed then .pending ⟨index, 13, 0x80, 0x9f, 2⟩
  else if byte ≤ 0xef then .pending ⟨index, byte - 0xe0, 0x80, 0xbf, 2⟩
  else if byte = 0xf0 then .pending ⟨index, 0, 0x90, 0xbf, 3⟩
  else if byte ≤ 0xf3 then .pending ⟨index, byte - 0xf0, 0x80, 0xbf, 3⟩
  else if byte = 0xf4 then .pending ⟨index, 4, 0x80, 0x8f, 3⟩
  else .invalid

/-- Decodes the bytes from an index on, after the bytes of a character that has begun. -/
def decodeFrom : Nat → Option Pending → List UInt8 → Except Fault Text
  | _, none, [] => .ok []
  | index, some pending, [] => .error ⟨pending.start, index - pending.start, .truncated⟩
  | index, none, byte :: rest =>
      match lead index byte.toNat with
      | .single c => (decodeFrom (index + 1) none rest).map (c :: ·)
      | .pending pending => decodeFrom (index + 1) (some pending) rest
      | .invalid => .error ⟨index, 1, .invalidStart⟩
  | index, some pending, byte :: rest =>
      if pending.low ≤ byte.toNat ∧ byte.toNat ≤ pending.high then
        let code := pending.code * 64 + (byte.toNat - 0x80)
        if pending.missing ≤ 1 then
          (decodeFrom (index + 1) none rest).map (Char.ofNat code :: ·)
        else
          decodeFrom (index + 1) (some ⟨pending.start, code, 0x80, 0xbf, pending.missing - 1⟩) rest
      else .error ⟨pending.start, index - pending.start, .invalidContinuation⟩

def decode (bytes : List UInt8) : Except Fault Text :=
  decodeFrom 0 none bytes

end SheetCensus.Utf8
