import Mathlib.Algebra.GroupWithZero.Nat
import Mathlib.Data.List.Basic
import SheetCensus.Css.Character
import SheetCensus.Proofs.Encoding.Utf8
import SheetCensus.Text.JsonString

set_option autoImplicit false

/-! String literals of JSON read back. A literal is read in two steps: between its quotes it gives
code units, an escape by four digits one unit and every other spelling one character, and then the
pairs of surrogates among the units are joined. A text is read back from its literal, whatever
stands behind it (`readJson?_jsonString`), and a literal is made of visible ASCII
(`isVisible_of_mem_jsonString`). -/

namespace SheetCensus.Text

/-! ### Reading a literal -/

def shortEscape? (c : Char) : Option Char :=
  if c = '"' ∨ c = '\\' ∨ c = '/' then some c
  else if c = 'b' then some '\x08'
  else if c = 'f' then some '\x0c'
  else if c = 'n' then some '\n'
  else if c = 'r' then some '\r'
  else if c = 't' then some '\t'
  else none

/-- The code units up to the closing quote, and what stands behind it. Controls, quotes and
backslashes do not stand for themselves. -/
def jsonUnits? : Text → Option (List Nat × Text)
  | [] => none
  | '"' :: behind => some ([], behind)
  | '\\' :: 'u' :: a :: b :: c :: d :: rest =>
      if [a, b, c, d].all Css.isHexDigit then
        (jsonUnits? rest).map (fun found => (Css.hexValue [a, b, c, d] :: found.1, found.2))
      else none
  | '\\' :: c :: rest =>
      match shortEscape? c with
      | some meant => (jsonUnits? rest).map (fun found => (meant.toNat :: found.1, found.2))
      | none => none
  | c :: rest =>
      if c.toNat < 0x20 ∨ c = '\\' then none
      else (jsonUnits? rest).map (fun found => (c.toNat :: found.1, found.2))

def isHighSurrogate (unit : Nat) : Bool :=
  0xd800 ≤ unit && unit ≤ 0xdbff

def isLowSurrogate (unit : Nat) : Bool :=
  0xdc00 ≤ unit && unit ≤ 0xdfff

/-- The text of code units. A surrogate that is not in a pair stands for no character. -/
def joinUnits? : List Nat → Option Text
  | [] => some []
  | [unit] =>
      if isHighSurrogate unit || isLowSurrogate unit then none else some [Char.ofNat unit]
  | unit :: next :: rest =>
      if isHighSurrogate unit && isLowSurrogate next then
        (joinUnits? rest).map
          (Char.ofNat (0x10000 + (unit - 0xd800) * 0x400 + (next - 0xdc00)) :: ·)
      else if isHighSurrogate unit || isLowSurrogate unit then none
      else (joinUnits? (next :: rest)).map (Char.ofNat unit :: ·)

def readJson? : Text → Option (Text × Text)
  | '"' :: rest =>
      match jsonUnits? rest with
      | some (units, behind) => (joinUnits? units).map (·, behind)
      | none => none
  | _ => none

/-! ### Digits -/

theorem isHexDigit_digitChar : ∀ digit < 16, Css.isHexDigit (Nat.digitChar digit) = true := by
  decide

theorem hexDigitValue_digitChar :
    ∀ digit < 16, Css.hexDigitValue (Nat.digitChar digit) = digit := by
  decide

theorem hexValue_fixedHex (width number : Nat) (small : number < 16 ^ width) :
    Css.hexValue (fixedHex width number) = number := by
  induction width generalizing number with
  | zero =>
      have none : number = 0 := by
        rw [pow_zero] at small
        omega
      rw [none]
      rfl
  | succ width ih =>
      rw [pow_succ] at small
      rw [fixedHex, Css.hexValue_concat, ih _ (by omega), hexDigitValue_digitChar _ (by omega)]
      omega

theorem all_isHexDigit_fixedHex (width number : Nat) :
    (fixedHex width number).all Css.isHexDigit = true := by
  induction width generalizing number with
  | zero => rfl
  | succ width ih =>
      rw [fixedHex, List.all_append, ih, List.all_cons, isHexDigit_digitChar _ (by omega)]
      rfl

theorem jsonUnits?_unitEscape (unit : Nat) (small : unit < 0x10000) (rest : Text) :
    jsonUnits? (unitEscape unit ++ rest) =
      (jsonUnits? rest).map (fun found => (unit :: found.1, found.2)) := by
  have value := hexValue_fixedHex 4 unit small
  have digits := all_isHexDigit_fixedHex 4 unit
  have four : ∃ a b c d, fixedHex 4 unit = [a, b, c, d] := ⟨_, _, _, _, rfl⟩
  obtain ⟨a, b, c, d, spelled⟩ := four
  unfold unitEscape
  rw [spelled] at value digits ⊢
  change jsonUnits? ('\\' :: 'u' :: a :: b :: c :: d :: rest) = _
  rw [jsonUnits?, if_pos digits, value]

/-! ### One character -/

def unitsOf (c : Char) : List Nat :=
  if c.toNat < 0x10000 then [c.toNat]
  else [0xd800 + (c.toNat - 0x10000) / 0x400, 0xdc00 + (c.toNat - 0x10000) % 0x400]

theorem jsonUnits?_short (c meant : Char) (short : shortEscape? c = some meant) (rest : Text) :
    jsonUnits? ('\\' :: c :: rest) =
      (jsonUnits? rest).map (fun found => (meant.toNat :: found.1, found.2)) := by
  have notUnit : c ≠ 'u' := by
    intro unit
    rw [unit] at short
    cases short
  rw [jsonUnits?, short]
  · intro a b c d rest unit
    exact absurd unit notUnit

theorem jsonUnits?_plain (c : Char) (rest : Text) (range : 0x20 ≤ c.toNat) (noQuote : c ≠ '"')
    (noBackslash : c ≠ '\\') :
    jsonUnits? (c :: rest) =
      (jsonUnits? rest).map (fun found => (c.toNat :: found.1, found.2)) := by
  rw [jsonUnits?, if_neg]
  · rintro (control | backslash)
    · omega
    · exact noBackslash backslash
  · exact noQuote
  · intro a b c d rest backslash
    exact absurd backslash noBackslash
  · intro c rest backslash
    exact absurd backslash noBackslash

theorem jsonUnits?_jsonChar (c : Char) (rest : Text) :
    jsonUnits? (jsonChar c ++ rest) =
      (jsonUnits? rest).map (fun found => (unitsOf c ++ found.1, found.2)) := by
  have scalar := Utf8.isScalar_toNat c
  fun_cases jsonChar c with
  | case1 same =>
      subst same
      exact jsonUnits?_short '"' '"' rfl rest
  | case2 _ same =>
      subst same
      exact jsonUnits?_short '\\' '\\' rfl rest
  | case3 _ _ same =>
      subst same
      exact jsonUnits?_short 'n' '\n' rfl rest
  | case4 _ _ _ same =>
      subst same
      exact jsonUnits?_short 'r' '\r' rfl rest
  | case5 _ _ _ _ same =>
      subst same
      exact jsonUnits?_short 't' '\t' rfl rest
  | case6 _ _ _ _ _ same =>
      subst same
      exact jsonUnits?_short 'f' '\x0c' rfl rest
  | case7 _ _ _ _ _ _ same =>
      subst same
      exact jsonUnits?_short 'b' '\x08' rfl rest
  | case8 noQuote noBackslash _ _ _ _ _ shown =>
      rw [unitsOf, if_pos (by omega)]
      exact jsonUnits?_plain c rest shown.1 noQuote noBackslash
  | case9 _ _ _ _ _ _ _ _ basic =>
      rw [unitsOf, if_pos basic]
      exact jsonUnits?_unitEscape c.toNat basic rest
  | case10 _ _ _ _ _ _ _ _ wide =>
      rw [unitsOf, if_neg wide, List.append_assoc, jsonUnits?_unitEscape _ (by omega),
        jsonUnits?_unitEscape _ (by omega), Option.map_map]
      rfl

theorem joinUnits?_unitsOf (c : Char) (rest : List Nat) :
    joinUnits? (unitsOf c ++ rest) = (joinUnits? rest).map (c :: ·) := by
  have scalar := Utf8.isScalar_toNat c
  fun_cases unitsOf c with
  | case1 basic =>
      have notHigh : isHighSurrogate c.toNat = false := by
        simp only [isHighSurrogate, Bool.and_eq_false_iff, decide_eq_false_iff_not]
        omega
      have notLow : isLowSurrogate c.toNat = false := by
        simp only [isLowSurrogate, Bool.and_eq_false_iff, decide_eq_false_iff_not]
        omega
      cases rest with
      | nil => simp [joinUnits?, notHigh, notLow, Char.ofNat_toNat]
      | cons next others =>
          simp only [List.singleton_append, joinUnits?, notHigh, notLow, Bool.false_and,
            Bool.false_or, Bool.false_eq_true, if_false, Char.ofNat_toNat]
  | case2 wide =>
      have high : isHighSurrogate (0xd800 + (c.toNat - 0x10000) / 0x400) = true := by
        simp only [isHighSurrogate, Bool.and_eq_true, decide_eq_true_eq]
        omega
      have low : isLowSurrogate (0xdc00 + (c.toNat - 0x10000) % 0x400) = true := by
        simp only [isLowSurrogate, Bool.and_eq_true, decide_eq_true_eq]
        omega
      have whole : 0x10000 + (0xd800 + (c.toNat - 0x10000) / 0x400 - 0xd800) * 0x400 +
          (0xdc00 + (c.toNat - 0x10000) % 0x400 - 0xdc00) = c.toNat := by
        omega
      rw [List.cons_append, List.singleton_append, joinUnits?, high, low, Bool.and_self,
        if_pos rfl, whole, Char.ofNat_toNat]

/-! ### Whole texts -/

theorem jsonUnits?_flatMap (text behind : Text) :
    jsonUnits? (text.flatMap jsonChar ++ '"' :: behind) =
      some (text.flatMap unitsOf, behind) := by
  induction text with
  | nil => rfl
  | cons c rest ih =>
      rw [List.flatMap_cons, List.append_assoc, jsonUnits?_jsonChar, ih]
      rfl

theorem joinUnits?_flatMap (text : Text) : joinUnits? (text.flatMap unitsOf) = some text := by
  induction text with
  | nil => rfl
  | cons c rest ih =>
      rw [List.flatMap_cons, joinUnits?_unitsOf, ih]
      rfl

theorem readJson?_jsonString (text behind : Text) :
    readJson? (jsonString text ++ behind) = some (text, behind) := by
  have whole : jsonString text ++ behind = '"' :: (text.flatMap jsonChar ++ '"' :: behind) := by
    unfold jsonString
    rw [List.cons_append, List.cons_append, List.append_assoc, List.singleton_append]
  rw [whole, readJson?, jsonUnits?_flatMap]
  dsimp only
  rw [joinUnits?_flatMap]
  rfl

theorem isVisible_of_mem_fixedHex (width number : Nat) :
    ∀ c ∈ fixedHex width number, 0x20 ≤ c.toNat ∧ c.toNat ≤ 0x7f := by
  have digit : ∀ value < 16, 0x20 ≤ (Nat.digitChar value).toNat ∧
      (Nat.digitChar value).toNat ≤ 0x7f := by
    decide
  induction width generalizing number with
  | zero => exact fun _ absent => absurd absent List.not_mem_nil
  | succ width ih =>
      intro c member
      rcases List.mem_append.mp member with front | last
      · exact ih _ c front
      · cases List.mem_singleton.mp last
        exact digit _ (by omega)

theorem isVisible_of_mem_unitEscape (unit : Nat) :
    ∀ c ∈ unitEscape unit, 0x20 ≤ c.toNat ∧ c.toNat ≤ 0x7f := by
  intro c member
  rcases List.mem_append.mp member with mark | digit
  · rcases List.mem_pair.mp mark with rfl | rfl <;> decide
  · exact isVisible_of_mem_fixedHex 4 unit c digit

theorem isVisible_of_mem_jsonChar (shown : Char) :
    ∀ c ∈ jsonChar shown, 0x20 ≤ c.toNat ∧ c.toNat ≤ 0x7f := by
  intro c member
  revert member
  fun_cases jsonChar shown with
  | case8 _ _ _ _ _ _ _ range =>
      intro member
      cases List.mem_singleton.mp member
      omega
  | case9 => exact isVisible_of_mem_unitEscape _ c
  | case10 =>
      intro member
      rcases List.mem_append.mp member with high | low
      · exact isVisible_of_mem_unitEscape _ c high
      · exact isVisible_of_mem_unitEscape _ c low
  | _ =>
      -- The seven short escapes.
      intro member
      rcases List.mem_pair.mp member with rfl | rfl <;> decide

theorem isVisible_of_mem_jsonString (text : Text) :
    ∀ c ∈ jsonString text, 0x20 ≤ c.toNat ∧ c.toNat ≤ 0x7f := by
  intro c member
  rcases List.mem_append.mp member with front | last
  · rcases List.mem_cons.mp front with rfl | inside
    · decide
    · obtain ⟨shown, _, spelled⟩ := List.mem_flatMap.mp inside
      exact isVisible_of_mem_jsonChar shown c spelled
  · cases List.mem_singleton.mp last
    decide

end SheetCensus.Text
