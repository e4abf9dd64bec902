import Mathlib.Algebra.GroupWithZero.Nat
import Mathlib.Data.List.Induction
import Mathlib.Data.List.TakeWhile
import SheetCensus.Css.Serialization
import SheetCensus.Proofs.Css.Locality

set_option autoImplicit false

/-! Numerals and ranges of code points cut out of a text and written in front of another one. What
is cut out is a numeral by itself (`numeralWidth_take`), and it reaches as far as before where
nothing follows that goes on with it (`IsNumeral.width_append`). -/

namespace SheetCensus.Css

def BeginsOutside (test : Char → Bool) (text : Text) : Prop :=
  ∀ c, text.head? = some c → test c = false

theorem takeWhile_outside {test : Char → Bool} {behind : Text} (outside : BeginsOutside test behind)
    (front : Text) : (front ++ behind).takeWhile test = front.takeWhile test := by
  induction front with
  | nil =>
      cases behind with
      | nil => rfl
      | cons c rest => simp [outside c rfl]
  | cons c rest ih => simp only [List.cons_append, List.takeWhile_cons, ih]

/-! ### What is cut out -/

theorem digitsWidth_take (text : Text) (count : Nat) :
    digitsWidth (text.take count) = min count (digitsWidth text) := by
  unfold digitsWidth
  induction text generalizing count with
  | nil => simp
  | cons c rest ih =>
      cases count with
      | zero => simp
      | succ count =>
          rw [List.take_succ_cons, List.takeWhile_cons, List.takeWhile_cons]
          split
          · rw [List.length_cons, List.length_cons, ih]
            omega
          · simp

theorem signWidth_take (text : Text) (count : Nat) (some : count ≠ 0) :
    signWidth (text.take count) = signWidth text := by
  cases text with
  | nil => simp
  | cons c rest =>
      cases count with
      | zero => exact absurd rfl some
      | succ count => rfl

theorem mantissaWidth_take (text : Text) (count : Nat) (enough : mantissaWidth text ≤ count) :
    mantissaWidth (text.take count) = mantissaWidth text := by
  unfold mantissaWidth at enough ⊢
  dsimp only at enough ⊢
  have whole : digitsWidth text ≤ count := by
    split at enough
    · exact enough
    · split at enough <;> omega
  rw [digitsWidth_take, Nat.min_eq_right whole, List.drop_take]
  cases behind : text.drop (digitsWidth text) with
  | nil => simp
  | cons c rest =>
      rw [behind] at enough
      dsimp only at enough
      cases left : count - digitsWidth text with
      | zero =>
          rw [List.take_zero]
          dsimp only
          rw [if_neg]
          intro point
          rw [if_pos point] at enough
          omega
      | succ more =>
          rw [List.take_succ_cons]
          dsimp only
          rw [digitsWidth_take]
          by_cases point : c = '.' ∧ digitsWidth rest ≠ 0
          · rw [if_pos point] at enough ⊢
            have reach : digitsWidth rest ≤ more := by omega
            rw [Nat.min_eq_right reach, if_pos point]
          · rw [if_neg point, if_neg]
            intro shorter
            exact point ⟨shorter.1, by omega⟩

theorem exponentWidth_take (text : Text) :
    exponentWidth (text.take (exponentWidth text)) = exponentWidth text := by
  cases text with
  | nil => rfl
  | cons c rest =>
      by_cases goesOn : (c = 'e' ∨ c = 'E') ∧ digitsWidth (rest.drop (signWidth rest)) ≠ 0
      · have width : exponentWidth (c :: rest) =
            signWidth rest + digitsWidth (rest.drop (signWidth rest)) + 1 := by
          simp only [exponentWidth, if_pos goesOn]
          omega
        rw [width, List.take_succ_cons, ← width]
        simp only [exponentWidth]
        rw [signWidth_take _ _ (by omega), List.drop_take, Nat.add_sub_cancel_left,
          digitsWidth_take, Nat.min_self]
      · have width : exponentWidth (c :: rest) = 0 := by
          simp only [exponentWidth, if_neg goesOn]
        rw [width]
        rfl

theorem numeralWidth_take (text : Text) :
    numeralWidth (text.take (numeralWidth text)) = numeralWidth text := by
  by_cases none : mantissaWidth (text.drop (signWidth text)) = 0
  · have width : numeralWidth text = 0 := by simp only [numeralWidth, if_pos none]
    rw [width]
    rfl
  · have width : numeralWidth text = signWidth text + (mantissaWidth (text.drop (signWidth text)) +
        exponentWidth
          (text.drop (signWidth text + mantissaWidth (text.drop (signWidth text))))) := by
      simp only [numeralWidth, if_neg none]
      omega
    have sign : signWidth (text.take (numeralWidth text)) = signWidth text :=
      signWidth_take _ _ (by omega)
    have mantissa : mantissaWidth ((text.take (numeralWidth text)).drop (signWidth text)) =
        mantissaWidth (text.drop (signWidth text)) := by
      rw [List.drop_take]
      exact mantissaWidth_take _ _ (by omega)
    have exponent : exponentWidth ((text.take (numeralWidth text)).drop
          (signWidth text + mantissaWidth (text.drop (signWidth text)))) =
        exponentWidth (text.drop (signWidth text + mantissaWidth (text.drop (signWidth text)))) := by
      rw [List.drop_take, width, ← Nat.add_assoc, Nat.add_sub_cancel_left]
      exact exponentWidth_take _
    rw [width]
    rw [width] at sign mantissa exponent
    unfold numeralWidth
    dsimp only
    rw [sign, mantissa, if_neg none, exponent, Nat.add_assoc]

theorem exponentWidth_le_length (text : Text) : exponentWidth text ≤ text.length := by
  cases text with
  | nil => exact Nat.zero_le _
  | cons c rest =>
      have digits :
          digitsWidth (rest.drop (signWidth rest)) ≤ (rest.drop (signWidth rest)).length :=
        length_takeWhile_le _ _
      have sign := signWidth_le_length rest
      rw [List.length_drop] at digits
      unfold exponentWidth
      dsimp only
      rw [List.length_cons]
      split <;> omega

theorem numeralWidth_le_length (text : Text) : numeralWidth text ≤ text.length := by
  have sign := signWidth_le_length text
  have mantissa := mantissaWidth_le_length (text.drop (signWidth text))
  have exponent := exponentWidth_le_length
    (text.drop (signWidth text + mantissaWidth (text.drop (signWidth text))))
  rw [List.length_drop] at mantissa exponent
  unfold numeralWidth
  dsimp only
  split <;> omega

structure IsNumeral (text : Text) : Prop where
  whole : numeralWidth text = text.length
  filled : text ≠ []

theorem isNumeral_take (text : Text) (some : numeralWidth text ≠ 0) :
    IsNumeral (text.take (numeralWidth text)) := by
  have size : (text.take (numeralWidth text)).length = numeralWidth text :=
    List.length_take_of_le (numeralWidth_le_length text)
  refine ⟨(numeralWidth_take text).trans size.symm, ?_⟩
  intro none
  rw [none] at size
  exact some size.symm

/-! ### Where a numeral begins -/

def beginsMantissa (c : Char) : Bool :=
  isDigit c || c == '.'

theorem mantissaWidth_begins (text : Text) (some : mantissaWidth text ≠ 0) :
    ∃ c rest, text = c :: rest ∧ beginsMantissa c = true := by
  cases text with
  | nil => exact absurd rfl some
  | cons c rest =>
      refine ⟨c, rest, rfl, ?_⟩
      unfold beginsMantissa
      cases digit : isDigit c with
      | true => rfl
      | false =>
          rw [Bool.false_or, beq_iff_eq]
          unfold mantissaWidth at some
          have none : digitsWidth (c :: rest) = 0 := by
            simp [digitsWidth, digit]
          simp only [none, List.drop_zero] at some
          by_cases point : c = '.' ∧ digitsWidth rest ≠ 0
          · exact point.1
          · exact absurd (if_neg point) some

theorem numeralWidth_begins (text : Text) (some : numeralWidth text ≠ 0) :
    (∃ c rest, text = c :: rest ∧ beginsMantissa c = true) ∨
      ∃ sign c rest, text = sign :: c :: rest ∧ (sign = '+' ∨ sign = '-') ∧
        beginsMantissa c = true := by
  have mantissa : mantissaWidth (text.drop (signWidth text)) ≠ 0 := by
    intro none
    exact some (by simp only [numeralWidth, if_pos none])
  obtain ⟨c, rest, left, begins⟩ := mantissaWidth_begins _ mantissa
  cases text with
  | nil => cases left
  | cons first others =>
      by_cases sign : first = '+' ∨ first = '-'
      · have width : signWidth (first :: others) = 1 := if_pos sign
        rw [width] at left
        change others = c :: rest at left
        exact Or.inr ⟨first, c, rest, by rw [left], sign, begins⟩
      · have width : signWidth (first :: others) = 0 := if_neg sign
        rw [width] at left
        exact Or.inl ⟨c, rest, left, begins⟩

theorem digitsWidth_digit {c : Char} (digit : isDigit c = true) (rest : Text) :
    digitsWidth (c :: rest) ≠ 0 := by
  simp [digitsWidth, digit]

theorem mantissaWidth_digit {c : Char} (digit : isDigit c = true) (rest : Text) :
    mantissaWidth (c :: rest) ≠ 0 := by
  have some := digitsWidth_digit digit rest
  unfold mantissaWidth
  dsimp only
  split
  · exact some
  · split <;> omega

theorem mantissaWidth_point (rest : Text) :
    mantissaWidth ('.' :: rest) ≠ 0 ↔ digitsWidth rest ≠ 0 := by
  have none : digitsWidth ('.' :: rest) = 0 := rfl
  unfold mantissaWidth
  dsimp only
  rw [none, List.drop_zero]
  dsimp only
  by_cases some : digitsWidth rest ≠ 0
  · rw [if_pos ⟨rfl, some⟩]
    exact ⟨fun _ => some, fun _ => by omega⟩
  · rw [if_neg (fun both => some both.2)]
    exact ⟨fun impossible => absurd rfl impossible, fun impossible => absurd impossible some⟩

theorem numeralWidth_of_mantissa {text : Text} (some : mantissaWidth text ≠ 0) :
    numeralWidth text ≠ 0 := by
  have noSign : signWidth text = 0 := by
    obtain ⟨c, rest, rfl, begins⟩ := mantissaWidth_begins text some
    apply if_neg
    intro sign
    rcases sign with rfl | rfl <;> cases begins
  simp only [numeralWidth, noSign, List.drop_zero, if_neg some]
  omega

theorem numeralWidth_digit {c : Char} (digit : isDigit c = true) (rest : Text) :
    numeralWidth (c :: rest) ≠ 0 :=
  numeralWidth_of_mantissa (mantissaWidth_digit digit rest)

theorem numeralWidth_sign {c : Char} (sign : c = '+' ∨ c = '-') (rest : Text) :
    numeralWidth (c :: rest) ≠ 0 ↔ mantissaWidth rest ≠ 0 := by
  have one : signWidth (c :: rest) = 1 := if_pos sign
  simp only [numeralWidth, one, List.drop_succ_cons, List.drop_zero]
  by_cases none : mantissaWidth rest = 0
  · simp [none]
  · simp [none]

/-- A mark begins no numeral in front of a text that begins none. -/
theorem numeralWidth_mark {c : Char} {behind : Text} (noDigit : isDigit c = false)
    (none : c ∈ ['.', '+', '-'] → numeralWidth behind = 0) : numeralWidth (c :: behind) = 0 := by
  by_contra some
  by_cases sign : c = '+' ∨ c = '-'
  · have listed : c ∈ ['.', '+', '-'] := by simp [sign]
    exact numeralWidth_of_mantissa ((numeralWidth_sign sign behind).mp some) (none listed)
  · rcases numeralWidth_begins _ some with ⟨d, rest, same, begins⟩ | ⟨d, e, rest, same, isSign, _⟩
    · obtain ⟨rfl, rfl⟩ := List.cons.inj same
      have point : c = '.' := by simpa [beginsMantissa, noDigit] using begins
      subst point
      have noSign : numeralWidth ('.' :: behind) ≠ 0 → mantissaWidth ('.' :: behind) ≠ 0 :=
        fun some none => some (if_pos none)
      have digits := (mantissaWidth_point behind).mp (noSign some)
      cases behind with
      | nil => exact digits rfl
      | cons e more =>
          apply numeralWidth_digit ?_ more (none List.mem_cons_self)
          by_contra noDigit
          exact digits (by simp [digitsWidth, noDigit])
    · obtain ⟨rfl, _⟩ := List.cons.inj same
      exact sign isSign

/-! ### What follows a numeral -/

structure EndsNumeral (behind : Text) : Prop where
  digit : BeginsOutside isDigit behind
  point : ∀ rest, behind = '.' :: rest → BeginsOutside isDigit rest
  exponent : exponentWidth behind = 0

theorem digitsWidth_outside {behind : Text} (outside : BeginsOutside isDigit behind)
    (front : Text) : digitsWidth (front ++ behind) = digitsWidth front :=
  congrArg List.length (takeWhile_outside outside front)

theorem digitsWidth_of_outside {behind : Text} (outside : BeginsOutside isDigit behind) :
    digitsWidth behind = 0 :=
  digitsWidth_outside outside []

theorem mantissaWidth_append {behind : Text} (ends : EndsNumeral behind) (front : Text) :
    mantissaWidth (front ++ behind) = mantissaWidth front := by
  have within : digitsWidth front ≤ front.length := length_takeWhile_le _ _
  unfold mantissaWidth
  simp only [digitsWidth_outside ends.digit, List.drop_append_of_le_length within]
  cases front.drop (digitsWidth front) with
  | cons c rest => simp only [List.cons_append, digitsWidth_outside ends.digit]
  | nil =>
      rw [List.nil_append]
      cases behind with
      | nil => rfl
      | cons c rest =>
          dsimp only
          rw [if_neg]
          intro point
          obtain ⟨rfl, digits⟩ := point
          exact digits (digitsWidth_of_outside (ends.point rest rfl))

theorem signWidth_append (front behind : Text) (filled : front ≠ []) :
    signWidth (front ++ behind) = signWidth front := by
  cases front with
  | nil => exact absurd rfl filled
  | cons c rest => rfl

/-- An exponent that fills the text is as wide in front of such a place. -/
theorem exponentWidth_append {behind : Text} (ends : EndsNumeral behind) (front : Text)
    (whole : exponentWidth front = front.length) :
    exponentWidth (front ++ behind) = exponentWidth front := by
  cases front with
  | nil => exact ends.exponent
  | cons c rest =>
      have within := signWidth_le_length rest
      have filled : rest ≠ [] := by
        intro none
        subst none
        simp [exponentWidth, signWidth, digitsWidth] at whole
      simp only [List.cons_append, exponentWidth, signWidth_append rest behind filled,
        List.drop_append_of_le_length within, digitsWidth_outside ends.digit]

theorem IsNumeral.width_append {numeral behind : Text} (isNumeral : IsNumeral numeral)
    (ends : EndsNumeral behind) : numeralWidth (numeral ++ behind) = numeral.length := by
  obtain ⟨whole, filled⟩ := isNumeral
  have sign := signWidth_le_length numeral
  have mantissa := mantissaWidth_le_length (numeral.drop (signWidth numeral))
  rw [List.length_drop] at mantissa
  have both : signWidth numeral + mantissaWidth (numeral.drop (signWidth numeral)) ≤
      numeral.length := by omega
  have size := List.length_pos_iff.mpr filled
  have parts := whole
  unfold numeralWidth at parts
  dsimp only at parts
  by_cases some : mantissaWidth (numeral.drop (signWidth numeral)) = 0
  · rw [if_pos some] at parts
    omega
  · rw [if_neg some] at parts
    have exponent := exponentWidth_append ends
      (numeral.drop (signWidth numeral + mantissaWidth (numeral.drop (signWidth numeral))))
      (by rw [List.length_drop]; omega)
    unfold numeralWidth
    dsimp only
    rw [signWidth_append numeral behind filled, List.drop_append_of_le_length sign,
      mantissaWidth_append ends, if_neg some, List.drop_append_of_le_length both, exponent, parts]

/-! ### How a numeral begins -/

/-! ### Ranges of code points -/

theorem isHexDigit_toUpper_digitChar :
    ∀ digit < 16, isHexDigit (Nat.digitChar digit).toUpper = true := by
  decide

theorem hexDigitValue_toUpper_digitChar :
    ∀ digit < 16, hexDigitValue (Nat.digitChar digit).toUpper = digit := by
  decide

/-- The last digit of a code point that has several. -/
theorem codePointText_eq_concat (number : Nat) (more : 16 ≤ number) :
    codePointText number =
      codePointText (number / 16) ++ [(Nat.digitChar (number % 16)).toUpper] := by
  unfold codePointText
  rw [Nat.toDigits_eq_if (by decide), if_neg (Nat.not_lt.mpr more), List.map_append]
  rfl

theorem codePointText_of_lt (number : Nat) (few : number < 16) :
    codePointText number = [(Nat.digitChar number).toUpper] := by
  unfold codePointText
  rw [Nat.toDigits_of_lt_base few]
  rfl

theorem hexValue_codePointText (number : Nat) : hexValue (codePointText number) = number := by
  induction number using Nat.strongRecOn with
  | ind number ih =>
      by_cases more : 16 ≤ number
      · rw [codePointText_eq_concat number more, hexValue_concat, ih _ (by omega),
          hexDigitValue_toUpper_digitChar _ (by omega)]
        omega
      · have few : number < 16 := Nat.not_le.mp more
        rw [codePointText_of_lt number few]
        change 0 * 16 + hexDigitValue _ = number
        rw [hexDigitValue_toUpper_digitChar number few, Nat.zero_mul, Nat.zero_add]

theorem isHexDigit_of_mem_codePointText (number : Nat) :
    ∀ c ∈ codePointText number, isHexDigit c = true := by
  induction number using Nat.strongRecOn with
  | ind number ih =>
      intro c member
      by_cases more : 16 ≤ number
      · rw [codePointText_eq_concat number more] at member
        rcases List.mem_append.mp member with front | last
        · exact ih _ (by omega) c front
        · cases List.mem_singleton.mp last
          exact isHexDigit_toUpper_digitChar _ (by omega)
      · have few : number < 16 := Nat.not_le.mp more
        rw [codePointText_of_lt number few] at member
        cases List.mem_singleton.mp member
        exact isHexDigit_toUpper_digitChar number few

theorem codePointText_ne_nil (number : Nat) : codePointText number ≠ [] := by
  unfold codePointText
  exact fun none => Nat.toDigits_ne_nil (List.map_eq_nil_iff.mp none)

theorem length_codePointText_le (number : Nat) (small : number < 16 ^ 6) :
    (codePointText number).length ≤ 6 := by
  unfold codePointText
  rw [List.length_map]
  exact (Nat.length_toDigits_le_iff (by decide) (by decide)).mpr small

theorem hexDigitValue_lt {c : Char} (digit : isHexDigit c = true) : hexDigitValue c < 16 := by
  simp only [isHexDigit, isDigit, Bool.or_eq_true, Bool.and_eq_true, decide_eq_true_eq,
    Char.reduceToNat] at digit
  simp only [hexDigitValue, isDigit, Bool.and_eq_true, decide_eq_true_eq, Char.reduceToNat]
  split
  · omega
  · split <;> omega

theorem hexValue_lt (digits : Text) (hexadecimal : ∀ c ∈ digits, isHexDigit c = true) :
    hexValue digits < 16 ^ digits.length := by
  induction digits using List.reverseRecOn with
  | nil => exact Nat.one_pos
  | append_singleton front last ih =>
      have before := ih (fun c member => hexadecimal c (List.mem_append_left _ member))
      have digit := hexDigitValue_lt (hexadecimal last (List.mem_append_right _ (by simp)))
      rw [hexValue_concat, List.length_append, List.length_singleton, pow_succ]
      omega

theorem hexValue_lt_of_length_le {digits : Text} (hexadecimal : ∀ c ∈ digits, isHexDigit c = true)
    (few : digits.length ≤ 6) : hexValue digits < 16 ^ 6 :=
  Nat.lt_of_lt_of_le (hexValue_lt digits hexadecimal) (Nat.pow_le_pow_right (by decide) few)

theorem isHexDigit_of_mem_rangeDigits (text : Text) : ∀ c ∈ rangeDigits text, isHexDigit c = true :=
  fun _ member => List.mem_takeWhile_imp member

theorem length_rangeDigits_le (text : Text) : (rangeDigits text).length ≤ 6 := by
  have shorter := length_takeWhile_le isHexDigit (text.take 6)
  rw [List.length_take] at shorter
  unfold rangeDigits
  omega

/-- A range ends at code points of at most six digits. -/
theorem rangeSpelling_lt (text : Text) :
    (rangeSpelling text).first < 16 ^ 6 ∧ (rangeSpelling text).last < 16 ^ 6 := by
  have digits (other : Text) : hexValue (rangeDigits other) < 16 ^ 6 :=
    hexValue_lt_of_length_le (isHexDigit_of_mem_rangeDigits other) (length_rangeDigits_le other)
  have few := length_rangeDigits_le text
  unfold rangeSpelling
  dsimp only
  generalize found : ((text.drop (rangeDigits text).length).take
    (6 - (rangeDigits text).length)).takeWhile (· == '?') = wild
  have wildFew : wild.length ≤ 6 - (rangeDigits text).length := by
    have shorter := length_takeWhile_le (· == '?')
      ((text.drop (rangeDigits text).length).take (6 - (rangeDigits text).length))
    rw [found, List.length_take] at shorter
    omega
  have padded (digit : Char) (hexadecimal : isHexDigit digit = true) :
      hexValue (rangeDigits text ++ wild.map (fun _ => digit)) < 16 ^ 6 := by
    apply hexValue_lt_of_length_le
    · intro c member
      rcases List.mem_append.mp member with front | back
      · exact isHexDigit_of_mem_rangeDigits text c front
      · obtain ⟨_, _, rfl⟩ := List.mem_map.mp back
        exact hexadecimal
    · rw [List.length_append, List.length_map]
      omega
  split
  · exact ⟨padded '0' rfl, padded 'F' rfl⟩
  · split
    · split
      · exact ⟨digits text, digits _⟩
      · exact ⟨digits text, digits text⟩
    · exact ⟨digits text, digits text⟩

structure EndsRange (behind : Text) : Prop where
  digit : BeginsOutside isHexDigit behind
  question : BeginsOutside (· == '?') behind
  hyphen : ∀ rest, behind = '-' :: rest → BeginsOutside isHexDigit rest

theorem rangeDigits_append {digits behind : Text}
    (hexadecimal : ∀ c ∈ digits, isHexDigit c = true) (few : digits.length ≤ 6)
    (outside : BeginsOutside isHexDigit behind) : rangeDigits (digits ++ behind) = digits := by
  have rest : (behind.take (6 - digits.length)).takeWhile isHexDigit = [] := by
    cases behind with
    | nil => simp
    | cons c more =>
        cases 6 - digits.length with
        | zero => rfl
        | succ left => simp [outside c rfl]
  unfold rangeDigits
  rw [List.take_append, List.take_of_length_le few, List.takeWhile_append_of_pos hexadecimal, rest,
    List.append_nil]

theorem rangeSpelling_codePoint {number : Nat} (small : number < 16 ^ 6) {behind : Text}
    (ends : EndsRange behind) :
    rangeSpelling (codePointText number ++ behind) =
      ⟨number, number, (codePointText number).length⟩ := by
  have low := rangeDigits_append (isHexDigit_of_mem_codePointText number)
    (length_codePointText_le number small) ends.digit
  unfold rangeSpelling
  simp only [low, List.drop_left, hexValue_codePointText]
  cases behind with
  | nil => simp
  | cons c rest =>
      have noWild : ((c :: rest).take (6 - (codePointText number).length)).takeWhile (· == '?') =
          [] := by
        cases 6 - (codePointText number).length with
        | zero => rfl
        | succ left => simp [ends.question c rfl]
      rw [noWild]
      by_cases hyphen : c = '-'
      · subst hyphen
        have none : rangeDigits ([] ++ rest) = [] :=
          rangeDigits_append nofun (Nat.zero_le 6) (ends.hyphen rest rfl)
        rw [List.nil_append] at none
        simp [none]
      · simp [hyphen]

theorem rangeSpelling_codePoints {first last : Nat} (small : first < 16 ^ 6)
    (smallToo : last < 16 ^ 6) {behind : Text} (ends : EndsRange behind) :
    rangeSpelling (codePointText first ++ '-' :: (codePointText last ++ behind)) =
      ⟨first, last, (codePointText first).length + 1 + (codePointText last).length⟩ := by
  have hyphen : BeginsOutside isHexDigit ('-' :: (codePointText last ++ behind)) := by
    intro c same
    cases same
    rfl
  have low := rangeDigits_append (isHexDigit_of_mem_codePointText first)
    (length_codePointText_le first small) hyphen
  have high := rangeDigits_append (isHexDigit_of_mem_codePointText last)
    (length_codePointText_le last smallToo) ends.digit
  have noWild : (('-' :: (codePointText last ++ behind)).take
      (6 - (codePointText first).length)).takeWhile (· == '?') = [] := by
    cases 6 - (codePointText first).length with
    | zero => rfl
    | succ left => rfl
  have some := List.length_pos_iff.mpr (codePointText_ne_nil last)
  unfold rangeSpelling
  simp only [low, List.drop_left, noWild, high, hexValue_codePointText]
  simp only [List.length_nil, ne_eq, not_true_eq_false, if_false]
  rw [if_pos (by omega)]

end SheetCensus.Css
