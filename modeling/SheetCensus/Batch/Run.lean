import SheetCensus.Batch.Entry
import SheetCensus.Report.Csv

set_option autoImplicit false

/-! A batch: every entry of a directory, in the order of the listing. Workers may finish the
entries in any order, so each piece of finished work carries the number of its entry, and
`gather` puts the work back into order before anything is decided. -/

namespace SheetCensus

/-- The names in a directory, in order. Of what may be the matter with its path only the length
is told apart. -/
def listing (tree : Tree) (directory : Path) : Except Failure (List Text) :=
  match tree.find directory with
  | .ok (location, .directory) => .ok (tree.namesAt location)
  | .error .tooLong => .error (.unreadable .tooLong directory.text)
  | _ => .error (.noDirectory directory.text)

namespace Batch

variable [Codecs]

def attempts (tree : Tree) (directory : Path) (config : Config) (files : List Text) :
    List (Nat × Attempt) :=
  files.mapIdx (fun place file => (place, Attempt.ofFile tree directory file config))

def gather (finished : List (Nat × Attempt)) : List Attempt :=
  (inOrder (fun left right => left.1 ≤ right.1) finished).map Prod.snd

def collect : List Attempt → Except Failure (List Record)
  | [] => .ok []
  | attempt :: others =>
      match attempt.outcome with
      | .error failure => .error failure
      | .ok record =>
          match collect others with
          | .error failure => .error failure
          | .ok records => .ok (record :: records)

structure Result where
  records : List Record
  notices : List Notice

/-- The result of finished work, in whatever order the work was finished. -/
def ofFinished (finished : List (Nat × Attempt)) : Except Failure Result :=
  let ordered := gather finished
  (collect ordered).map (fun records => ⟨records, Notice.sorted (ordered.flatMap Attempt.notices)⟩)

/-- Takes in every entry of a directory; without one, of the directory of the configuration.
A directory without entries is found empty before the number of workers is looked at. -/
def run (tree : Tree) (directory : Option Text) (config : Config) : Except Failure Result :=
  let path := Path.ofText (directory.getD config.directory)
  match listing tree path with
  | .error failure => .error failure
  | .ok [] => .ok ⟨[], [.nothingFound path.text]⟩
  | .ok files =>
      if config.workers < 1 then .error .noWorkers
      else ofFinished (attempts tree path config files)

/-- The notices that are given while every entry of a directory is taken in, in the order of the
listing, whether the batch fails or not. -/
def notices (tree : Tree) (directory : Option Text) (config : Config) : List Notice :=
  let path := Path.ofText (directory.getD config.directory)
  match listing tree path with
  | .error _ => []
  | .ok [] => [.nothingFound path.text]
  | .ok files =>
      if config.workers < 1 then []
      else (gather (attempts tree path config files)).flatMap Attempt.notices

end Batch

end SheetCensus
