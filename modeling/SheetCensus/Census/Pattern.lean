import SheetCensus.Text.Basic

set_option autoImplicit false

/-! Patterns for selectors. A pattern is a fixed number of character tests, one after the other,
and a text has it when some window of the text passes them all. Letters are compared in ASCII
without regard to case, and only ASCII digits are digits. -/

namespace SheetCensus

/-- The tests that the characters of a window pass in order. -/
abbrev Pattern := List (Char → Bool)

namespace Pattern

def letter (wanted : Char) : Char → Bool :=
  fun c => c.toLower == wanted

def digit : Char → Bool :=
  Char.isDigit

def word (letters : Text) : Pattern :=
  letters.map letter

def opens : Pattern → Text → Bool
  | [], _ => true
  | _ :: _, [] => false
  | test :: tests, c :: rest => test c && opens tests rest

def occursIn (pattern : Pattern) : Text → Bool
  | [] => pattern.opens []
  | c :: rest => pattern.opens (c :: rest) || pattern.occursIn rest

def background : Pattern :=
  word "color-".toList ++ digit :: word "-background".toList

/-- A numbered colour whose number ends there or goes on with anything but a hyphen; one more
character must follow. -/
def color : Pattern :=
  word "color-".toList ++ [digit, fun c => c != '-']

end Pattern

end SheetCensus
