import SheetCensus.Css.Token
import SheetCensus.Css.Escape
import SheetCensus.Css.Numeral

set_option autoImplicit false

/-! Lexemes: the flat sequence into which a text is cut before blocks are formed. Cutting needs
no memory of what went before, so each lexeme is found from the text that is left. `scan` reads
one lexeme and says how many characters it covers; `pieces` repeats it to the end. The pieces
put one after the other are the text again (`flatMap_source_pieces`). -/

namespace SheetCensus.Css

inductive Lexeme where
  | leaf (leaf : Leaf)
  /-- A leaf that the end of the text breaks off, and the error that says so. -/
  | brokenOff (leaf : Leaf) (error : LexError)
  | comment (body : Text) (closed : Bool)
  | opener (opener : Opener)
  | closer (bracket : Bracket)
deriving DecidableEq

namespace Lexeme

/-- How many characters of a bad address are passed over: up to its closing bracket, which a
backslash can hide, or to the end of the text. -/
def remnantsWidth : Text → Nat
  | [] => 0
  | '\\' :: ')' :: rest => remnantsWidth rest + 2
  | ')' :: _ => 1
  | _ :: rest => remnantsWidth rest + 1

/-- Reads an address without quotes from the text after its opening bracket. White space may
stand around the address but not within it. -/
def scanUrl (text : Text) : Lexeme × Nat :=
  let lead := (text.takeWhile isSpace).length
  let body := text.drop lead
  let width := EscapedRun.url.width body
  let value := EscapedRun.url.value body
  let trail := ((body.drop width).takeWhile isSpace).length
  let reach := lead + width + trail
  match body.drop (width + trail) with
  | [] => (.brokenOff (.url value false) .urlAtEnd, reach)
  | c :: rest =>
      if c = ')' then (.leaf (.url value true), reach + 1)
      else if trail = 0 then (.leaf (.error .badUrl), reach + 1 + remnantsWidth rest)
      else (.leaf (.error .badUrl), reach + remnantsWidth (c :: rest))

def quoteFollows (text : Text) : Bool :=
  (text.dropWhile isSpace).head?.any (fun c => c == '"' || c == '\'')

def scanIdent (text : Text) : Lexeme × Nat :=
  let width := EscapedRun.name.width text
  let name := EscapedRun.name.value text
  match text.drop width with
  | '(' :: rest =>
      if name.lower = ['u', 'r', 'l'] ∧ quoteFollows rest = false then
        let (lexeme, reach) := scanUrl rest
        (lexeme, width + 1 + reach)
      else (.opener (.function name), width + 1)
  | _ => (.leaf (.ident name), width)

def scanNumeric (text : Text) (width : Nat) : Lexeme × Nat :=
  let numeral := text.take width
  let rest := text.drop width
  if startsIdent rest then
    let reach := EscapedRun.name.width rest
    (.leaf (.dimension numeral (EscapedRun.name.value rest)), width + reach)
  else if rest.head? = some '%' then (.leaf (.percentage numeral), width + 1)
  else (.leaf (.number numeral), width)

def scanString (quote : Char) (text : Text) : Lexeme × Nat :=
  let run := EscapedRun.string quote
  let width := run.width text
  let value := run.value text
  match text.drop width with
  | [] => (.brokenOff (.string value false) .stringAtEnd, width + 1)
  | c :: _ =>
      if c = quote then (.leaf (.string value true), width + 2)
      else (.leaf (.error .badString), width + 1)

def commentEnd? : Text → Option Nat
  | [] => none
  | c :: rest =>
      if c = '*' ∧ rest.head? = some '/' then some 0 else (commentEnd? rest).map (· + 1)

def scanComment (text : Text) : Lexeme × Nat :=
  match commentEnd? text with
  | some length => (.comment (text.take length) true, length + 4)
  | none => (.comment text false, text.length + 2)

def scanAt (text : Text) : Lexeme × Nat :=
  if startsIdent text then
    let width := EscapedRun.name.width text
    (.leaf (.atKeyword (EscapedRun.name.value text)), width + 1)
  else (.leaf (.literal ['@']), 1)

def scanHash (text : Text) : Lexeme × Nat :=
  if text.head?.any isNameChar || startsEscape text then
    let width := EscapedRun.name.width text
    (.leaf (.hash (EscapedRun.name.value text) (startsIdent text)), width + 1)
  else (.leaf (.literal ['#']), 1)

def scanLiteral (first : Char) (rest : Text) : Lexeme × Nat :=
  if first = '<' ∧ rest.take 3 = ['!', '-', '-'] then (.leaf (.literal ['<', '!', '-', '-']), 4)
  else if first = '|' ∧ rest.head? = some '|' then (.leaf (.literal ['|', '|']), 2)
  else if first ∈ ['~', '|', '^', '$', '*'] ∧ rest.head? = some '=' then
    (.leaf (.literal [first, '=']), 2)
  else (.leaf (.literal [first]), 1)

def scanMark (first : Char) (rest : Text) : Lexeme × Nat :=
  if first = '@' then scanAt rest
  else if first = '#' then scanHash rest
  else if first = '"' ∨ first = '\'' then scanString first rest
  else if first = '/' ∧ rest.head? = some '*' then scanComment (rest.drop 1)
  else
    match Bracket.ofOpening? first, Bracket.ofClosing? first with
    | some bracket, _ => (.opener (.bracket bracket), 1)
    | none, some bracket => (.closer bracket, 1)
    | none, none => scanLiteral first rest

def scan (first : Char) (rest : Text) : Lexeme × Nat :=
  let text := first :: rest
  if isSpace first then
    (.leaf (.whitespace (text.takeWhile isSpace)), (text.takeWhile isSpace).length)
  else if startsUnicodeRange text then
    let range := rangeSpelling (rest.drop 1)
    (.leaf (.unicodeRange range.first range.last), range.width + 2)
  else if text.take 3 = ['-', '-', '>'] then (.leaf (.literal ['-', '-', '>']), 3)
  else if startsIdent text then scanIdent text
  else if numeralWidth text ≠ 0 then scanNumeric text (numeralWidth text)
  else scanMark first rest

end Lexeme

structure Piece where
  source : Text
  lexeme : Lexeme
deriving DecidableEq

namespace Piece

def listFrom : Nat → Text → List Piece
  | _, [] => []
  | skip + 1, _ :: rest => listFrom skip rest
  | 0, first :: rest =>
      let (lexeme, width) := Lexeme.scan first rest
      ⟨first :: rest.take (width - 1), lexeme⟩ :: listFrom (width - 1) rest

end Piece

def pieces (text : Text) : List Piece :=
  Piece.listFrom 0 text

namespace Piece

theorem listFrom_eq_pieces_drop (skip : Nat) (text : Text) :
    listFrom skip text = pieces (text.drop skip) := by
  induction skip generalizing text with
  | zero => rfl
  | succ skip ih =>
      cases text with
      | nil => rfl
      | cons first rest => exact ih rest

end Piece

theorem pieces_nil : pieces [] = [] :=
  rfl

/-- One step of cutting: the first lexeme, then the pieces of the text after it. -/
theorem pieces_cons (first : Char) (rest : Text) :
    pieces (first :: rest) =
      ⟨first :: rest.take ((Lexeme.scan first rest).2 - 1), (Lexeme.scan first rest).1⟩ ::
        pieces (rest.drop ((Lexeme.scan first rest).2 - 1)) := by
  rw [← Piece.listFrom_eq_pieces_drop]
  rfl

/-- Nothing is lost in cutting: the pieces put one after the other are the text. -/
theorem flatMap_source_pieces (text : Text) : (pieces text).flatMap Piece.source = text := by
  induction size : text.length using Nat.strongRecOn generalizing text with
  | ind bound ih =>
      cases text with
      | nil => rfl
      | cons first rest =>
          rw [pieces_cons, List.flatMap_cons,
            ih (rest.drop ((Lexeme.scan first rest).2 - 1)).length (by
              rw [← size, List.length_drop, List.length_cons]; omega) _ rfl,
            List.cons_append, List.take_append_drop]

def placed (position : Position) : List Piece → List (Position × Lexeme)
  | [] => []
  | piece :: others =>
      (position, piece.lexeme) :: placed (position.after piece.source) others

def lexemes (text : Text) : List (Position × Lexeme) :=
  placed .start (pieces text)

end SheetCensus.Css
