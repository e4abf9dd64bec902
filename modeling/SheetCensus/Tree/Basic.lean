import SheetCensus.Order
import SheetCensus.Tree.Fault
import SheetCensus.Tree.Path

set_option autoImplicit false

/-! A tree of files. Every file and directory stands at a location, the list of names that leads
to it from the root. A path is walked component by component, so that each directory on the way
has to exist, the ones before double dots included. -/

namespace SheetCensus

inductive Node where
  | file (bytes : List UInt8)
  | directory
deriving DecidableEq

abbrev Location := List Text

/-- The files and directories, with the location that relative paths begin at. -/
structure Tree where
  nodes : List (Location × Node)
  current : Location

namespace Tree

def empty : Tree :=
  ⟨[], []⟩

def node? (tree : Tree) (location : Location) : Option Node :=
  if location = [] then some .directory else tree.nodes.lookup location

def put (tree : Tree) (location : Location) (node : Node) : Tree :=
  { tree with nodes := (location, node) :: tree.nodes.filter (fun entry => entry.1 != location) }

theorem node?_put_self (tree : Tree) (location : Location) (node : Node)
    (notRoot : location ≠ []) : (tree.put location node).node? location = some node := by
  simp only [node?, put, if_neg notRoot, List.lookup_cons_self]

/-- Entries chosen by their locations: a chosen location has kept its node, another one has
none. -/
theorem lookup_filter (chosen : Location → Bool) (nodes : List (Location × Node))
    (location : Location) :
    (nodes.filter (fun entry => chosen entry.1)).lookup location =
      if chosen location then nodes.lookup location else none := by
  induction nodes with
  | nil => cases chosen location <;> rfl
  | cons entry rest ih =>
      obtain ⟨place, node⟩ := entry
      by_cases same : location = place
      · subst place
        cases kept : chosen location with
        | true => simp only [List.filter_cons, kept, if_true, List.lookup_cons_self]
        | false =>
            simp only [List.filter_cons, kept, Bool.false_eq_true, if_false] at ih ⊢
            exact ih
      · have apart : (location == place) = false := beq_eq_false_iff_ne.mpr same
        cases kept : chosen place with
        | true => simp only [List.filter_cons, kept, if_true, List.lookup_cons, apart, ih]
        | false =>
            simp only [List.filter_cons, kept, Bool.false_eq_true, if_false, List.lookup_cons,
              apart, ih]

theorem node?_put_of_ne (tree : Tree) (location other : Location) (node : Node)
    (different : other ≠ location) : (tree.put location node).node? other = tree.node? other := by
  have apart : (other == location) = false := beq_eq_false_iff_ne.mpr different
  have kept : (other != location) = true := bne_iff_ne.mpr different
  simp only [node?, put, List.lookup_cons, apart, lookup_filter (· != location), kept, if_true]

def locate (start : Location) (parts : List Text) : Location :=
  parts.foldl (fun location part =>
    if part = Path.up then location.dropLast else location ++ [part]) start

def startOf (tree : Tree) (path : Path) : Location :=
  if path.root = [] then tree.current else []

def longestName : Nat :=
  255

def longestPath : Nat :=
  4095

/-- Walks the pieces of a path from a location and answers where they lead. An empty piece and a
single dot stay, but only in a directory. -/
def walk (tree : Tree) : Location → List Text → Except FileFault Location
  | here, [] => .ok here
  | here, piece :: rest =>
      match tree.node? here with
      | some .directory =>
          if piece = Path.up then walk tree here.dropLast rest
          else if !Path.isPart piece then walk tree here rest
          else if longestName < piece.byteCount then .error .tooLong
          else if (tree.node? (here ++ [piece])).isSome then walk tree (here ++ [piece]) rest
          else .error .missing
      | _ => .error .notDirectory

def follow (tree : Tree) (text : Text) (start : Location) (pieces : List Text) :
    Except FileFault (Location × Node) :=
  if text.contains '\x00' then .error .nullCharacter
  else if longestPath < text.byteCount then .error .tooLong
  else
    match tree.walk start pieces with
    | .error fault => .error fault
    | .ok location =>
        match tree.node? location with
        | some node => .ok (location, node)
        | none => .error .missing

def find (tree : Tree) (path : Path) : Except FileFault (Location × Node) :=
  tree.follow path.text (tree.startOf path) path.parts

/-- What the text of a path leads to as it stands. Unlike the path that it spells, a text may be
empty and then leads nowhere, and one that ends in a slash or a dot leads to no file. -/
def findText (tree : Tree) (text : Text) : Except FileFault (Location × Node) :=
  if text = [] then .error .missing
  else tree.follow text (tree.startOf (Path.ofText text)) (Text.splitAt '/' text)

def leadsToFile (tree : Tree) (text : Text) : Bool :=
  match tree.findText text with
  | .ok (_, .file _) => true
  | _ => false

def read (tree : Tree) (path : Path) : Except FileFault (List UInt8) :=
  match tree.find path with
  | .error fault => .error fault
  | .ok (_, .directory) => .error .isDirectory
  | .ok (_, .file bytes) => .ok bytes

def childName? (here : Location) (entry : Location × Node) : Option Text :=
  match entry.1.getLast? with
  | some name => if entry.1.dropLast = here then some name else none
  | none => none

def namesAt (tree : Tree) (here : Location) : List Text :=
  inOrder Text.precedes (tree.nodes.filterMap (childName? here))

end Tree

end SheetCensus
