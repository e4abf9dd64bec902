import SheetCensus.Text.Quoted

set_option autoImplicit false

/-! Why a path cannot be used. Each fault has a number and words of its own; a null character is
found before anything is looked up and has words only. -/

namespace SheetCensus

inductive FileFault where
  | nullCharacter
  | missing
  | alreadyExists
  | notDirectory
  | isDirectory
  /-- A directory that is named from within, by a dot. -/
  | fromWithin
  | tooLong
deriving DecidableEq

def FileFault.message (fault : FileFault) (path : Text) : Text :=
  match fault with
  | nullCharacter => "embedded null byte".toList
  | missing => "[Errno 2] No such file or directory: ".toList ++ path.quoted
  | alreadyExists => "[Errno 17] File exists: ".toList ++ path.quoted
  | notDirectory => "[Errno 20] Not a directory: ".toList ++ path.quoted
  | isDirectory => "[Errno 21] Is a directory: ".toList ++ path.quoted
  | fromWithin => "[Errno 22] Invalid argument: ".toList ++ path.quoted
  | tooLong => "[Errno 36] File name too long: ".toList ++ path.quoted

end SheetCensus
