import SheetCensus.Css.Lexeme

set_option autoImplicit false

/-! Nesting: from the flat lexemes to the tree of tokens. The open blocks form a stack; a
closing bracket closes the innermost one if it fits and is an error otherwise. Blocks that are
still open at the end of the text are closed there without a word, so the stack at the end is
what tells a complete text from a truncated one. -/

namespace SheetCensus.Css

/-- An open block and the tokens before it in the block around it, the last one first. -/
structure Frame where
  position : Position
  opener : Opener
  before : List Token

/-- The state between two lexemes: the open blocks, the innermost first, and the tokens of the
innermost one so far, the last one first. -/
structure Nest where
  frames : List Frame
  recent : List Token

namespace Nest

def empty : Nest :=
  ⟨[], []⟩

def push (nest : Nest) (token : Token) : Nest :=
  ⟨nest.frames, token :: nest.recent⟩

def shut (nest : Nest) (position : Position) (bracket : Bracket) : Nest :=
  match nest.frames with
  | [] => nest.push (.leaf position (.error (.unmatched bracket)))
  | frame :: outer =>
      if frame.opener.closedBy = bracket then
        ⟨outer, .block frame.position frame.opener nest.recent.reverse :: frame.before⟩
      else nest.push (.leaf position (.error (.unmatched bracket)))

def step (nest : Nest) : Position × Lexeme → Nest
  | (position, .leaf leaf) => nest.push (.leaf position leaf)
  | (position, .brokenOff leaf error) =>
      (nest.push (.leaf position leaf)).push (.leaf position (.error error))
  | (position, .comment body _) => nest.push (.leaf position (.comment body))
  | (position, .opener opener) => ⟨⟨position, opener, nest.recent⟩ :: nest.frames, []⟩
  | (position, .closer bracket) => nest.shut position bracket

def finish : List Frame → List Token → List Token
  | [], recent => recent.reverse
  | frame :: outer, recent =>
      finish outer (.block frame.position frame.opener recent.reverse :: frame.before)

def tokens (nest : Nest) : List Token :=
  finish nest.frames nest.recent

def ofLexemes (lexemes : List (Position × Lexeme)) : Nest :=
  lexemes.foldl step empty

end Nest

def Lexeme.isComment : Lexeme → Bool
  | .comment _ _ => true
  | _ => false

/-- The lexemes without the comments at any depth. The white space on both sides of a comment
stays two lexemes. -/
def withoutComments (lexemes : List (Position × Lexeme)) : List (Position × Lexeme) :=
  lexemes.filter (fun placed => !placed.2.isComment)

def nest (lexemes : List (Position × Lexeme)) : List Token :=
  (Nest.ofLexemes lexemes).tokens

end SheetCensus.Css
