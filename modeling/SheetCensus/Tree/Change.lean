import SheetCensus.Tree.Basic

set_option autoImplicit false

/-! Changes of a tree. A file is written after the directories in front of it are made, each one
in its turn, also those that double dots lead out of again. A change that stops halfway leaves
what it has done until then. -/

namespace SheetCensus

/-- What a change comes to: the tree that it leaves and, if it stopped, the fault that stopped it
and the text of the path where it did. -/
structure Change where
  tree : Tree
  stop : Option (FileFault × Text)

namespace Tree

def locationOf (tree : Tree) (text : Text) : Location :=
  let path := Path.ofText text
  locate (tree.startOf path) path.parts

def makeDirectory (tree : Tree) (text : Text) : Change :=
  match tree.findText (Path.trimmed text) with
  | .ok (_, .directory) => ⟨tree, none⟩
  | .ok (_, .file _) => ⟨tree, some (.alreadyExists, text)⟩
  | .error .missing => ⟨tree.put (tree.locationOf text) .directory, none⟩
  | .error fault => ⟨tree, some (fault, text)⟩

/-- Goes on to make a directory. A file in the place of the one before does not stop this: the
directory cannot be made in a file, which is found now. -/
def goOn (change : Change) (text : Text) : Change :=
  match change.stop with
  | none => change.tree.makeDirectory text
  | some (.alreadyExists, _) => change.tree.makeDirectory text
  | some _ => change

def makeDirectories (tree : Tree) (text : Text) : Change :=
  if text = [] then ⟨tree, some (.missing, text)⟩
  else (Path.beginnings text).foldl goOn ⟨tree, none⟩

def fill (tree : Tree) (text : Text) (bytes : List UInt8) : Change :=
  if text = [] then ⟨tree, some (.missing, text)⟩
  else
    match tree.findText text with
    | .ok (_, .directory) => ⟨tree, some (.isDirectory, text)⟩
    | .ok (location, .file _) => ⟨tree.put location (.file bytes), none⟩
    | .error .missing => ⟨tree.put (tree.locationOf text) (.file bytes), none⟩
    | .error fault => ⟨tree, some (fault, text)⟩

def write (tree : Tree) (text : Text) (bytes : List UInt8) : Change :=
  if Path.front text = [] then tree.fill text bytes
  else
    let made := tree.makeDirectories (Path.front text)
    match made.stop with
    | none => made.tree.fill text bytes
    | some _ => made

def cleared (tree : Tree) (location : Location) : Tree :=
  { tree with
    nodes := tree.nodes.filter (fun entry =>
      !location.isPrefixOf entry.1 || entry.1 == location) }

def erased (tree : Tree) (location : Location) : Tree :=
  { tree with nodes := tree.nodes.filter (fun entry => entry.1 != location) }

theorem node?_cleared (tree : Tree) (location other : Location) (notRoot : other ≠ []) :
    (tree.cleared location).node? other =
      if !location.isPrefixOf other || other == location then tree.node? other else none := by
  simp only [node?, if_neg notRoot, cleared,
    lookup_filter (fun place => !location.isPrefixOf place || place == location)]

theorem node?_erased (tree : Tree) (location other : Location) (notRoot : other ≠ []) :
    (tree.erased location).node? other =
      if other != location then tree.node? other else none := by
  simp only [node?, if_neg notRoot, erased, lookup_filter (· != location)]

/-- Removes a file, or a directory after everything in it. By then the path to a directory may be
lost, as double dots lead out of a directory that was in it; and a directory that is named from
within stays. -/
def remove (tree : Tree) (text : Text) : Change :=
  match tree.findText text with
  | .error fault => ⟨tree, some (fault, text)⟩
  | .ok (location, .file _) => ⟨tree.erased location, none⟩
  | .ok (location, .directory) =>
      let emptied := tree.cleared location
      match emptied.findText text with
      | .error fault => ⟨emptied, some (fault, text)⟩
      | .ok _ =>
          if (Text.splitAt '/' (Path.trimmed text)).getLast? = some ['.'] then
            ⟨emptied, some (.fromWithin, text)⟩
          else ⟨emptied.erased location, none⟩

end Tree

end SheetCensus
