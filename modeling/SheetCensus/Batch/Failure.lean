import SheetCensus.Encoding.Codec
import SheetCensus.Tree.Fault

set_option autoImplicit false

/-! Why a file or a whole batch has no record. A style sheet that is malformed is not among the
failures: it has a record that says so. -/

namespace SheetCensus

inductive Failure where
  | noEventId (name : Text)
  | noDirectory (path : Text)
  | unreadable (fault : FileFault) (path : Text)
  | undecodable (fault : DecodeFault)
  | nullInEncoding
  | unknownEncoding (name : Text)
  /-- What has that name does not make texts. -/
  | notTextEncoding (message : Text)
  /-- A codec fails without telling bytes that do not decode. -/
  | codecFailed (message : Text)
  | noWorkers
  | oversized (digits : Nat)
deriving DecidableEq

namespace Failure

def ofCodecFault : CodecFault → Failure
  | .undecodable fault => .undecodable fault
  | .failed message => .codecFailed message

def oversizedText (digits : Nat) : Text :=
  "Exceeds the limit (4300 digits) for integer string conversion: value has ".toList ++
    Text.ofNat digits ++
    " digits; use sys.set_int_max_str_digits() to increase the limit".toList

def message : Failure → Text
  | noEventId name => "No leading event id in filename: ".toList ++ name.quoted
  | noDirectory path => "Stylesheet directory not found: ".toList ++ path
  | unreadable fault path => fault.message path
  | undecodable fault => fault.message
  | nullInEncoding => "embedded null character".toList
  | unknownEncoding name => "unknown encoding: ".toList ++ name
  | notTextEncoding message => message
  | codecFailed message => message
  | noWorkers => "max_workers must be greater than 0".toList
  | oversized digits => oversizedText digits

end Failure

end SheetCensus
