import SheetCensus.Text.Basic

set_option autoImplicit false

/-! Paths. A path is kept as its components: empty components and single dots vanish, double
dots stay, and slashes at the beginning are kept apart because they lead to the root. -/

namespace SheetCensus

structure Path where
  root : Text
  parts : List Text
deriving DecidableEq

namespace Path

def up : Text :=
  ['.', '.']

def isPart (piece : Text) : Bool :=
  !(piece == [] || piece == ['.'])

/-- The slashes that a path begins with. Two are kept; any other number counts as one. -/
def rootOf (text : Text) : Text :=
  match (text.takeWhile (· == '/')).length with
  | 0 => []
  | 2 => ['/', '/']
  | _ => ['/']

def ofText (text : Text) : Path :=
  ⟨rootOf text, (Text.splitAt '/' text).filter isPart⟩

def join (path other : Path) : Path :=
  if other.root = [] then ⟨path.root, path.parts ++ other.parts⟩ else other

def text (path : Path) : Text :=
  if path.root = [] ∧ path.parts = [] then ['.']
  else path.root ++ Text.join ['/'] path.parts

def trimmed (text : Text) : Text :=
  match (text.reverse.dropWhile (· == '/')).reverse with
  | [] => text
  | rest => rest

/-- The text in front of the last component, without the slashes between them. Nothing is in
front of a single component. -/
def front (text : Text) : Text :=
  trimmed (text.reverse.dropWhile (· != '/')).reverse

def endsAt (text : Text) (index : Nat) : Bool :=
  (text.take index).getLast?.any (· != '/') && (text.drop index).head? == some '/' &&
    (text.drop index).any (· != '/')

/-- The beginnings of a path's text that end with a component, the shortest first. The last one
is the whole text, with the slashes at its end. -/
def beginnings (text : Text) : List Text :=
  ((List.range text.length).filter (endsAt text)).map text.take ++ [text]

end Path

end SheetCensus
