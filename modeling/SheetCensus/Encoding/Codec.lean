import SheetCensus.Encoding.Basic

set_option autoImplicit false

/-! Looking up a codec by its name. Beside the encodings that are built in there is one codec that
refuses all bytes, and there are any others that a system has registered: a name may lead to none,
to one that does not make texts, or to one that does. -/

namespace SheetCensus

inductive CodecFault where
  | undecodable (fault : DecodeFault)
  /-- The codec fails without telling bytes that do not decode. -/
  | failed (message : Text)
deriving DecidableEq

inductive Codec where
  | missing
  | notText (message : Text)
  | text (decode : List UInt8 → Except CodecFault Text)

/-- The codecs of a system beside those that are built in. -/
class Codecs where
  find : Text → Codec

instance Codecs.builtin : Codecs :=
  ⟨fun _ => .missing⟩

namespace Codec

/-- The codec that refuses all bytes. -/
def undefined (name : Text) : Codec :=
  .text (fun _ => .error (.failed
    ("decoding with '".toList ++ name ++
      "' codec failed (UnicodeError: undefined encoding)".toList)))

def ofName [Codecs] (name : Text) : Codec :=
  match Encoding.ofName? name with
  | some code => .text (fun bytes => (code.decode bytes).mapError .undecodable)
  | none =>
      if Encoding.canonical name = "undefined".toList then undefined name else Codecs.find name

end Codec

end SheetCensus
