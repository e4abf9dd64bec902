import SheetCensus.Text.Basic

set_option autoImplicit false

/-! The text of a style sheet before it is divided into tokens: the null character is replaced
and every kind of line end becomes one line feed. Positions are counted in this text by line
and column, and a table of line starts leads from a position back to an index. -/

namespace SheetCensus

namespace Source

def normalize : Text → Text
  | [] => []
  | '\r' :: '\n' :: rest => '\n' :: normalize rest
  | c :: rest =>
      (if c = '\x00' then '\uFFFD' else if c = '\r' ∨ c = '\x0c' then '\n' else c) :: normalize rest

end Source

/-- A place in a text. Lines and columns count from one. -/
structure Position where
  line : Nat
  column : Nat
deriving DecidableEq

namespace Position

def start : Position :=
  ⟨1, 1⟩

def next (position : Position) (c : Char) : Position :=
  if c = '\n' then ⟨position.line + 1, 1⟩ else ⟨position.line, position.column + 1⟩

def after (position : Position) (text : Text) : Position :=
  text.foldl next position

theorem after_append (position : Position) (left right : Text) :
    position.after (left ++ right) = (position.after left).after right :=
  List.foldl_append

end Position

namespace Source

/-- The indices at which the lines after the first begin, for a text that itself begins at
`index`. -/
def laterLineStarts (index : Nat) : Text → List Nat
  | [] => []
  | c :: rest =>
      if c = '\n' then (index + 1) :: laterLineStarts (index + 1) rest
      else laterLineStarts (index + 1) rest

end Source

structure Source where
  text : Text
  lineStarts : List Nat

namespace Source

def ofNormalized (text : Text) : Source :=
  ⟨text, 0 :: laterLineStarts 0 text⟩

def ofText (text : Text) : Source :=
  ofNormalized (normalize text)

def offset (source : Source) (position : Position) : Nat :=
  source.lineStarts.getD (position.line - 1) 0 + position.column - 1

def slice (source : Source) (start length : Nat) : Text :=
  (source.text.drop start).take length

end Source

end SheetCensus
