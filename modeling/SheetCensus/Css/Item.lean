import SheetCensus.Css.Token

set_option autoImplicit false

/-! The inside of a rule's block: declarations and at-rules, separated by semicolons. A
declaration is a name, a colon and a value; the value may end in the mark of importance, which
does not belong to it. -/

namespace SheetCensus.Css

inductive ItemError where
  | nameExpected (got : Kind)
  | colonMissing
  | colonExpected
  | blockInValue
deriving DecidableEq

inductive Item where
  | declaration (name : Text) (value : List Token)
  | atRule
  | faulty (error : ItemError) (position : Position)

inductive Importance where
  | none
  /-- After an exclamation mark; `before` is the value up to it. -/
  | marked (before : List Token)
  | complete (before : List Token)

/-- The state of reading a value: its tokens, the last one first, the mark of importance, and
whether a part was seen and whether a curly block came after another part. -/
structure ValueState where
  recent : List Token
  importance : Importance
  hasPart : Bool
  hasLateBlock : Bool

namespace ValueState

def empty : ValueState :=
  ⟨[], .none, false, false⟩

def isImportantWord : Token → Bool
  | .leaf _ (.ident name) => name.lower == "important".toList
  | _ => false

def addPart (state : ValueState) (token : Token) : ValueState :=
  { recent := token :: state.recent
    importance := .none
    hasPart := true
    hasLateBlock :=
      state.hasLateBlock || (state.hasPart && token.curlyContent?.isSome) }

def step (state : ValueState) (token : Token) : ValueState :=
  match state.importance with
  | .none =>
      if token.isLiteral ['!'] then
        { state with recent := token :: state.recent, importance := .marked state.recent }
      else if token.isInsignificant then { state with recent := token :: state.recent }
      else state.addPart token
  | .marked before =>
      if isImportantWord token then
        { state with recent := token :: state.recent, importance := .complete before }
      else if token.isInsignificant then { state with recent := token :: state.recent }
      else state.addPart token
  | .complete _ =>
      if token.isInsignificant then { state with recent := token :: state.recent }
      else state.addPart token

def tokens (state : ValueState) : List Token :=
  match state.importance with
  | .complete before => before.reverse
  | _ => state.recent.reverse

end ValueState

namespace Item

def ofValue (name : Text) (colon : Position) (value : List Token) : Item :=
  let state := value.foldl ValueState.step .empty
  if state.hasLateBlock then faulty .blockInValue colon else declaration name state.tokens

def ofTokens (first : Token) (others : List Token) : Item :=
  match first with
  | .leaf position (.ident name) =>
      match others.dropWhile Token.isInsignificant with
      | [] => faulty .colonMissing position
      | colon :: value =>
          if colon.isLiteral [':'] then ofValue name colon.position value
          else faulty .colonExpected colon.position
  | _ => faulty (.nameExpected (Kind.ofToken first)) first.position

inductive Begun where
  | atRule
  /-- A declaration, with the tokens after its first one, the last one first. -/
  | declaration (first : Token) (recent : List Token)

def ofBegun : Begun → Item
  | .atRule => atRule
  | .declaration first recent => ofTokens first recent.reverse

def begin : Token → Begun
  | .leaf _ (.atKeyword _) => .atRule
  | token => .declaration token []

def listAfter : Option Begun → List Token → List Item
  | none, [] => []
  | some begun, [] => [ofBegun begun]
  | none, token :: rest =>
      if token.isInsignificant || token.isLiteral [';'] then listAfter none rest
      else listAfter (some (begin token)) rest
  | some begun, token :: rest =>
      if token.isLiteral [';'] then ofBegun begun :: listAfter none rest
      else
        match begun with
        | .atRule =>
            if token.curlyContent?.isSome then atRule :: listAfter none rest
            else listAfter (some .atRule) rest
        | .declaration first recent =>
            listAfter (some (.declaration first (token :: recent))) rest

end Item

def items (content : List Token) : List Item :=
  Item.listAfter none content

end SheetCensus.Css
