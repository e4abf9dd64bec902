import SheetCensus.Css.Construct
import SheetCensus.Stylesheet.Basic
import SheetCensus.Stylesheet.Ending
import SheetCensus.Stylesheet.Selector

set_option autoImplicit false

/-! Reading a style sheet. The text is cut into lexemes once; a numeral that is too long stops
everything, then the end of the text is checked on the tokens with comments, and then the
constructs of the tokens without comments become rules in order, the first fault winning.
Whatever raises a fault is told the label of the text. Rules inside the blocks of at-rules are not
looked at. -/

namespace SheetCensus

open Css

/-- Why a text is not read: a fault in the style sheet, or an integer with more digits than
are converted to a number. -/
inductive Refusal where
  | fault (fault : Fault)
  | oversized (digits : Nat)
deriving DecidableEq

namespace Reading

def digitLimit : Nat :=
  4300

def numeral? : Leaf → Option Text
  | .number numeral => some numeral
  | .percentage numeral => some numeral
  | .dimension numeral _ => some numeral
  | _ => none

def oversized? : Lexeme → Option Nat
  | .leaf leaf =>
      match (numeral? leaf).bind integerLength? with
      | some digits => if digitLimit < digits then some digits else none
      | none => none
  | _ => none

/-- Refuses a sequence of tokens in which an error stands at its top. -/
def checkTokens (label : Option Text) : List Token → Except Fault Unit
  | [] => .ok ()
  | token :: rest =>
      match token.error? with
      | some (error, position) => .error ⟨.token error, position, label⟩
      | none => checkTokens label rest

/-- The text of a value. An address without quotes keeps its first three characters as the
source spells them. -/
def valueText (source : Source) (tokens : List Token) : Text :=
  let text := (tokensText tokens).trim
  match tokens.find? (fun token => !token.isInsignificant) with
  | some (.leaf position (.url _ _)) => source.slice (source.offset position) 3 ++ text.drop 3
  | _ => text

def declarations (source : Source) (label : Option Text) :
    List Item → Except Fault (List Declaration)
  | [] => .ok []
  | .faulty error position :: _ => .error ⟨.item error, position, label⟩
  | .atRule :: rest => declarations source label rest
  | .declaration name value :: rest =>
      match checkTokens label value with
      | .error fault => .error fault
      | .ok () =>
          match declarations source label rest with
          | .error fault => .error fault
          | .ok others => .ok (⟨name, valueText source value⟩ :: others)

def holdsDeclarations (keyword : Text) : Bool :=
  keyword == "font-face".toList || keyword == "page".toList

def atRuleDeclarations (source : Source) (label : Option Text) (keyword : Text) :
    Option (List Token) → Except Fault (Option (List Declaration))
  | none => .ok none
  | some body =>
      if holdsDeclarations keyword then (declarations source label (items body)).map some
      else .ok none

def rule (source : Source) (label : Option Text) : Construct → Except Fault Rule
  | .unfinished position => .error ⟨.blockMissing, position, label⟩
  | .styleRule position prelude body =>
      match checkTokens label prelude with
      | .error fault => .error fault
      | .ok () =>
          match Selector.list prelude with
          | [] => .error ⟨.selectorMissing, position, label⟩
          | selectors =>
              (declarations source label (items body)).map
                (fun found => ⟨Rule.styleType, some selectors, some found⟩)
  | .atRule _ keyword prelude body =>
      match checkTokens label prelude with
      | .error fault => .error fault
      | .ok () =>
          (atRuleDeclarations source label keyword.lower body).map
            (fun found => ⟨keyword.lower, none, found⟩)

def rules (source : Source) (label : Option Text) : List Construct → Except Fault (List Rule)
  | [] => .ok []
  | construct :: rest =>
      match rule source label construct with
      | .error fault => .error fault
      | .ok found =>
          match rules source label rest with
          | .error fault => .error fault
          | .ok others => .ok (found :: others)

def ofLexemes (source : Source) (label : Option Text) (lexemes : List (Position × Lexeme)) :
    Except Fault (List Rule) :=
  match (Ending.ofTokens (nest lexemes)).fault? source.text label with
  | some fault => .error fault
  | none => rules source label (constructs (nest (withoutComments lexemes)))

end Reading

def readRules (text : Text) (label : Option Text) : Except Refusal (List Rule) :=
  let source := Source.ofText text
  let lexemes := lexemes source.text
  match lexemes.findSome? (fun placed => Reading.oversized? placed.2) with
  | some digits => .error (.oversized digits)
  | none => (Reading.ofLexemes source label lexemes).mapError .fault

/-- Reads a style sheet. A text in which nothing stands has no list of rules. -/
def Stylesheet.read (text : Text) (label : Option Text) : Except Refusal Stylesheet :=
  (readRules text label).map (fun rules => ⟨if rules.isEmpty then none else some rules, label⟩)

end SheetCensus
