import SheetCensus.Css.Item

set_option autoImplicit false

/-! Why a style sheet cannot be read. A fault is a cause with a place and the label that its text
is read under. A diagnostic is what is shown of it: the bare message, its place and the label of the
text, where they are known. -/

namespace SheetCensus

open Css (Bracket LexError ItemError)

inductive Cause where
  | commentOpen
  | blockOpen (bracket : Bracket)
  | token (error : LexError)
  | blockMissing
  | selectorMissing
  | item (error : ItemError)
deriving DecidableEq

namespace Cause

def tokenMessage : LexError → Text
  | .unmatched bracket => "Unmatched ".toList ++ [bracket.closing]
  | .badString => "Bad string token".toList
  | .badUrl => "bad URL token".toList
  | .stringAtEnd => "EOF in string".toList
  | .urlAtEnd => "EOF in URL".toList

def itemMessage : ItemError → Text
  | .nameExpected kind =>
      "Expected <ident> for declaration name, got ".toList ++ kind.label ++ ['.']
  | .colonMissing => "Expected ':' after declaration name, got EOF".toList
  | .colonExpected =>
      "Expected ':' after declaration name, got \x7bcolon.type\x7d.".toList
  | .blockInValue => "Declaration contains \x7b\x7d block".toList

def message : Cause → Text
  | commentOpen => "End of comment missing".toList
  | blockOpen bracket => "missing '".toList ++ [bracket.closing, '\'']
  | token error => tokenMessage error
  | blockMissing => "EOF reached before \x7b\x7d block for a qualified rule.".toList
  | selectorMissing => "selector missing".toList
  | item error => itemMessage error

end Cause

structure Fault where
  cause : Cause
  position : Position
  label : Option Text
deriving DecidableEq

/-- A message with as much of its place as is known. -/
structure Diagnostic where
  message : Text
  line : Option Int
  column : Option Int
  label : Option Text
deriving DecidableEq

namespace Diagnostic

def numberText : Option Int → Text
  | some number => Text.ofInt number
  | none => "None".toList

/-- The whole text: the label first, unless it is missing or empty, then line and column,
unless the line is unknown. -/
def text (diagnostic : Diagnostic) : Text :=
  match diagnostic.label with
  | none => diagnostic.message
  | some [] => diagnostic.message
  | some label =>
      match diagnostic.line with
      | none => label ++ [':', ' '] ++ diagnostic.message
      | some line =>
          label ++ [':'] ++ Text.ofInt line ++ [':'] ++ numberText diagnostic.column ++
            [':', ' '] ++ diagnostic.message

end Diagnostic

def Fault.diagnostic (fault : Fault) : Diagnostic where
  message := fault.cause.message
  line := some fault.position.line
  column := some fault.position.column
  label := fault.label

end SheetCensus
