import SheetCensus.Batch.Failure
import SheetCensus.Batch.Notice
import SheetCensus.Census.Count
import SheetCensus.Tree.Basic

set_option autoImplicit false

/-! One file of a batch. The name must begin with the number of an event, then the file is read
and decoded, and then its style sheet is counted; a style sheet that cannot be read gives the
record of a failure. -/

namespace SheetCensus

structure Config where
  directory : Text
  workers : Int
  digestLength : Int
  encoding : Text
deriving DecidableEq

def Config.standard : Config :=
  ⟨"css".toList, 8, 50, "utf-8".toList⟩

/-- The digits that the name of a file begins with. -/
def eventId (name : Text) : Except Failure Text :=
  match name.takeWhile Char.isDigit with
  | [] => .error (.noEventId name)
  | digits => .ok digits

structure Attempt where
  notices : List Notice
  outcome : Except Failure Record

namespace Attempt

variable [Codecs]

/-- Decodes the bytes of a file by the name of an encoding. Without bytes the name is not looked
up, yet it must not hold a null character. -/
def decode (encoding : Text) (bytes : List UInt8) : Except Failure Text :=
  if encoding.contains '\x00' then .error .nullInEncoding
  else if bytes.isEmpty then .ok []
  else
    match Codec.ofName encoding with
    | .missing => .error (.unknownEncoding encoding)
    | .notText message => .error (.notTextEncoding message)
    | .text decode => (decode bytes).mapError .ofCodecFault

def content (tree : Tree) (path : Path) (encoding : Text) : Except Failure Text :=
  match tree.read path with
  | .error fault => .error (.unreadable fault path.text)
  | .ok bytes => decode encoding bytes

def ofContent (id file label content : Text) (digestLength : Int) : Attempt :=
  let told := Notice.read id file content.length
  let initial := Record.initial id content.length
  match Stylesheet.read content (some label) with
  | .ok sheet => ⟨[told], .ok (initial.countSheet sheet)⟩
  | .error (.fault fault) =>
      let diagnostic := fault.diagnostic
      ⟨[told, .refused (content.clip digestLength) diagnostic],
        .ok (initial.failed content diagnostic.text digestLength)⟩
  | .error (.oversized digits) => ⟨[told], .error (.oversized digits)⟩

def ofFile (tree : Tree) (directory : Path) (file : Text) (config : Config) : Attempt :=
  match eventId file with
  | .error failure => ⟨[], .error failure⟩
  | .ok id =>
      let path := directory.join (Path.ofText file)
      match content tree path config.encoding with
      | .error failure => ⟨[], .error failure⟩
      | .ok text => ofContent id file path.text text config.digestLength

end Attempt

end SheetCensus
