import SheetCensus.Css.Character

set_option autoImplicit false

/-! Numerals and code point ranges as they are spelled: how far the longest spelling at the
start of a text reaches, and what it denotes. A width of zero means that there is none. -/

namespace SheetCensus.Css

def signWidth : Text → Nat
  | [] => 0
  | c :: _ => if c = '+' ∨ c = '-' then 1 else 0

def digitsWidth (text : Text) : Nat :=
  (text.takeWhile isDigit).length

/-- The length of the digits of an unsigned decimal. A point counts only when a digit follows
it; before the point there may be none. -/
def mantissaWidth (text : Text) : Nat :=
  let whole := digitsWidth text
  match text.drop whole with
  | [] => whole
  | c :: rest =>
      if c = '.' ∧ digitsWidth rest ≠ 0 then whole + 1 + digitsWidth rest else whole

def exponentWidth : Text → Nat
  | [] => 0
  | c :: rest =>
      let sign := signWidth rest
      let digits := digitsWidth (rest.drop sign)
      if (c = 'e' ∨ c = 'E') ∧ digits ≠ 0 then 1 + sign + digits else 0

def numeralWidth (text : Text) : Nat :=
  let sign := signWidth text
  let mantissa := mantissaWidth (text.drop sign)
  if mantissa = 0 then 0
  else sign + mantissa + exponentWidth (text.drop (sign + mantissa))

/-- The number of digits of a numeral that is a plain integer: no point and no exponent. -/
def integerLength? (numeral : Text) : Option Nat :=
  let digits := numeral.drop (signWidth numeral)
  if digits.all isDigit then some digits.length else none

def startsUnicodeRange : Text → Bool
  | u :: '+' :: c :: _ => (u == 'u' || u == 'U') && (isHexDigit c || c == '?')
  | _ => false

theorem spelling_of_startsUnicodeRange {text : Text} (range : startsUnicodeRange text = true) :
    ∃ u c more, text = u :: '+' :: c :: more ∧ (u = 'u' ∨ u = 'U') ∧
      (isHexDigit c = true ∨ c = '?') := by
  revert range
  fun_cases startsUnicodeRange text with
  | case1 u c more =>
      intro range
      simp only [Bool.and_eq_true, Bool.or_eq_true, beq_iff_eq] at range
      exact ⟨u, c, more, rfl, range⟩
  | case2 => exact nofun

theorem startsUnicodeRange_of_ne_letter {c : Char} (noSmall : c ≠ 'u') (noCapital : c ≠ 'U')
    (rest : Text) : startsUnicodeRange (c :: rest) = false := by
  rw [← Bool.not_eq_true]
  intro range
  obtain ⟨u, d, more, spelled, letter, _⟩ := spelling_of_startsUnicodeRange range
  obtain ⟨rfl, _⟩ := List.cons.inj spelled
  exact letter.elim noSmall noCapital

theorem startsUnicodeRange_of_ne {c : Char} (start : isNameStart c = false) (rest : Text) :
    startsUnicodeRange (c :: rest) = false := by
  apply startsUnicodeRange_of_ne_letter
  · rintro rfl
    cases start
  · rintro rfl
    cases start

def rangeDigits (text : Text) : Text :=
  (text.take 6).takeWhile isHexDigit

structure RangeSpelling where
  first : Nat
  last : Nat
  width : Nat
deriving DecidableEq

/-- The range spelled by the text after its `U+`. Question marks stand for the lowest and the
highest digit; without them a hyphen and more digits may name the last code point. -/
def rangeSpelling (text : Text) : RangeSpelling :=
  let low := rangeDigits text
  let rest := text.drop low.length
  let wild := (rest.take (6 - low.length)).takeWhile (· == '?')
  if wild.length ≠ 0 then
    ⟨hexValue (low ++ wild.map (fun _ => '0')), hexValue (low ++ wild.map (fun _ => 'F')),
      low.length + wild.length⟩
  else
    match rest with
    | '-' :: after =>
        let high := rangeDigits after
        if high.length ≠ 0 then ⟨hexValue low, hexValue high, low.length + 1 + high.length⟩
        else ⟨hexValue low, hexValue low, low.length⟩
    | _ => ⟨hexValue low, hexValue low, low.length⟩

end SheetCensus.Css
