import SheetCensus.CommandLine.Command

set_option autoImplicit false

/-! The program. It takes a picture of the part of the file system that the command can see, and
then prints what the command comes to; everything else is decided there. -/

namespace SheetCensus

def Location.spelling (location : Location) : String :=
  String.ofList ('/' :: Text.join ['/'] location)

def nodeAt (location : Location) : IO (Option Node) := do
  let place := (← IO.currentDir) / Location.spelling location
  if ← place.isDir then
    return some .directory
  else if ← place.pathExists then
    return some (.file (← IO.FS.readBinFile place).toList)
  else
    return none

def addNode (tree : Tree) (location : Location) : IO Tree := do
  match ← nodeAt location with
  | some node => return tree.put location node
  | none => return tree

def namesIn (location : Location) : IO (List Text) := do
  let place := (← IO.currentDir) / Location.spelling location
  if ← place.isDir then
    return (← place.readDir).toList.map (fun entry => entry.fileName.toList)
  else
    return []

def Location.above (location : Location) : List Location :=
  (List.range location.length).map location.take

/-- A picture of what a path goes through and of the directory that it leads to. -/
def picture (path : Path) : IO Tree := do
  let current : Location := (Path.ofText (← IO.currentDir).toString.toList).parts
  let start := Tree.startOf ⟨[], current⟩ path
  let passed := (List.range (path.parts.length + 1)).map (fun count =>
    Tree.locate start (path.parts.take count))
  let goal := Tree.locate start path.parts
  let children := (← namesIn goal).map (fun name => goal ++ [name])
  (current.above ++ [current] ++ passed ++ children).foldlM addNode ⟨[], current⟩

end SheetCensus

open SheetCensus in
def main (arguments : List String) : IO UInt32 := do
  let texts := arguments.map String.toList
  let tree ← picture (Path.ofText (requestedDirectory texts))
  let outcome := command tree texts
  IO.print (String.ofList outcome.stdout)
  IO.eprint (String.ofList outcome.stderr)
  match outcome.handedOn with
  | some failure => IO.eprintln (String.ofList failure.message)
  | none => if outcome.exitCode = 1 then IO.eprintln ""
  return UInt32.ofNat outcome.exitCode
