import Mathlib.Data.List.TakeWhile
import SheetCensus.Proofs.Css.Escaping
import SheetCensus.Proofs.Css.Flattening
import SheetCensus.Proofs.Css.Joining
import SheetCensus.Proofs.Css.Numeral
import SheetCensus.Proofs.Text.Ascii
import SheetCensus.Text.Blank

set_option autoImplicit false

/-! How the lexemes of a text are spelled. What begins a name has a name that is not empty, a numeral
is one from end to end, a mark is a character that begins nothing else, and the white space that is
passed over is ASCII (`Lexeme.scan_isSpelled`); an address begins with a letter or a backslash, so
that the characters a value takes from the source do not begin with a blank
(`Lexeme.isBlank_of_scan_url`). -/

namespace SheetCensus.Css

theorem EscapedRun.value_name_ne_nil (text : Text) (starts : startsIdent text = true) :
    EscapedRun.name.value text ≠ [] := by
  cases text with
  | nil => cases starts
  | cons c rest =>
      unfold EscapedRun.value EscapedRun.valueFrom
      by_cases escape : c = '\\'
      · subst escape
        rw [if_pos rfl]
        by_cases lineFeed : rest.head? = some '\n'
        · simp [startsIdent, startsEscape, lineFeed, isNameStart] at starts
        · rw [if_neg lineFeed]
          split <;> exact List.cons_ne_nil _ _
      · have plain : isNameChar c = true := by
          by_cases hyphen : c = '-'
          · subst hyphen
            rfl
          · have begins : isNameStart c = true := by
              simpa [startsIdent, startsEscape, escape, hyphen] using starts
            simp [isNameChar, begins]
        rw [if_neg escape]
        change (if isNameChar c = true then _ else _) ≠ _
        rw [if_pos plain]
        exact List.cons_ne_nil _ _

theorem isBlank_of_isSpace (c : Char) (space : isSpace c = true) : Text.isBlank c = true := by
  simp only [isSpace, Bool.or_eq_true, beq_iff_eq] at space
  rcases space with (rfl | rfl) | rfl <;> rfl

/-- A name that could not stand alone: it begins with a digit, perhaps behind a hyphen, or it is the
hyphen. -/
def IsBareHash (name : Text) : Prop :=
  (∃ c rest, name = c :: rest ∧ isDigit c = true) ∨ name = ['-'] ∨
    ∃ c rest, name = '-' :: c :: rest ∧ isDigit c = true

/-- What stands behind a number sign and could not stand alone as a name is spelled so. -/
theorem isBareHash_of_not_startsIdent (text : Text) (filled : text.head?.any isNameChar = true)
    (alone : startsIdent text = false) : IsBareHash (EscapedRun.name.value text) := by
  cases text with
  | nil => cases filled
  | cons c rest =>
      have plain : isNameChar c = true := filled
      rw [EscapedRun.value_name_cons plain]
      by_cases hyphen : c = '-'
      · subst hyphen
        simp only [startsIdent, Bool.or_eq_false_iff] at alone
        obtain ⟨noName, noEscape⟩ := alone
        by_cases digit : rest.head?.any isDigit = true
        · cases rest with
          | nil => cases digit
          | cons d others =>
              have ten : isDigit d = true := digit
              have plainToo : isNameChar d = true := by simp [isNameChar, ten]
              rw [EscapedRun.value_name_cons plainToo]
              exact Or.inr (Or.inr ⟨d, _, rfl, ten⟩)
        · have ends : EscapedRun.EndsName rest := by
            refine ⟨?_, noEscape⟩
            intro d found
            rw [found] at noName digit
            simp only [Option.any_some, Bool.or_eq_false_iff] at noName digit
            simp [isNameChar, noName.1, noName.2, digit]
          rw [EscapedRun.value_of_endsName ends]
          exact Or.inr (Or.inl rfl)
      · have noStart : isNameStart c = false := by
          rw [← Bool.not_eq_true]
          intro starts
          rw [startsIdent_of_isNameStart starts rest] at alone
          cases alone
        have digit : isDigit c = true := by
          simpa [isNameChar, noStart, hyphen] using plain
        exact Or.inl ⟨c, _, rfl, digit⟩

/-- A character that is a mark by itself, if nothing that stands behind it goes on with it. -/
structure IsMark (c : Char) : Prop where
  space : isSpace c = false
  start : isNameStart c = false
  digit : isDigit c = false
  quote : c ≠ '"' ∧ c ≠ '\''
  opening : Bracket.ofOpening? c = none
  closing : Bracket.ofClosing? c = none

def longMarks : List Text :=
  [['-', '-', '>'], ['<', '!', '-', '-'], ['|', '|'], ['~', '='], ['|', '='], ['^', '='],
    ['$', '='], ['*', '=']]

/-- A name is not empty, a numeral is one from end to end, white space is made of space characters,
and neither a comment nor a bracket that closes nothing is a leaf of its own. -/
def Leaf.IsSpelled : Leaf → Prop
  | .ident name => name ≠ []
  | .atKeyword name => name ≠ []
  | .hash name isIdentifier => name ≠ [] ∧ (isIdentifier = false → IsBareHash name)
  | .whitespace spelling => spelling ≠ [] ∧ ∀ c ∈ spelling, isSpace c = true
  | .literal spelling => (∃ c, spelling = [c] ∧ IsMark c) ∨ spelling ∈ longMarks
  | .unicodeRange first last => first < 16 ^ 6 ∧ last < 16 ^ 6
  | .number numeral => IsNumeral numeral
  | .percentage numeral => IsNumeral numeral
  | .dimension numeral unit => IsNumeral numeral ∧ unit ≠ []
  | .comment _ => False
  | .error (.unmatched _) => False
  | _ => True

namespace Lexeme

def IsSpelled : Lexeme → Prop
  | .leaf found => found.IsSpelled
  | .brokenOff found error => found.IsSpelled ∧ (Leaf.error error).IsSpelled
  | .opener (.function name) => name ≠ []
  | _ => True

private theorem scanUrl_isSpelled (text : Text) : (scanUrl text).1.IsSpelled := by
  unfold scanUrl
  dsimp only
  split
  · exact ⟨trivial, trivial⟩
  · split
    · trivial
    · split <;> trivial

private theorem scanIdent_isSpelled (text : Text) (starts : startsIdent text = true) :
    (scanIdent text).1.IsSpelled := by
  unfold scanIdent
  dsimp only
  split
  · split
    · exact scanUrl_isSpelled _
    · exact EscapedRun.value_name_ne_nil text starts
  · exact EscapedRun.value_name_ne_nil text starts

private theorem scanNumeric_isSpelled (text : Text) (some : numeralWidth text ≠ 0) :
    (scanNumeric text (numeralWidth text)).1.IsSpelled := by
  have isNumeral := isNumeral_take text some
  fun_cases scanNumeric text (numeralWidth text) with
  | case1 numeral rest starts => exact ⟨isNumeral, EscapedRun.value_name_ne_nil _ starts⟩
  | case2 => exact isNumeral
  | case3 => exact isNumeral

private theorem scanString_isSpelled (quote : Char) (text : Text) :
    (scanString quote text).1.IsSpelled := by
  unfold scanString
  dsimp only
  split
  · exact ⟨trivial, trivial⟩
  · split <;> trivial

private theorem scanComment_isSpelled (text : Text) : (scanComment text).1.IsSpelled := by
  unfold scanComment
  split <;> trivial

private theorem scanAt_isSpelled (text : Text) : (scanAt text).1.IsSpelled := by
  fun_cases scanAt text with
  | case1 starts => exact EscapedRun.value_name_ne_nil text starts
  | case2 => exact Or.inl ⟨'@', rfl, rfl, rfl, rfl, by decide, rfl, rfl⟩

private theorem scanHash_isSpelled (text : Text) : (scanHash text).1.IsSpelled := by
  fun_cases scanHash text with
  | case1 filled =>
      have bare (alone : startsIdent text = false) : IsBareHash (EscapedRun.name.value text) := by
        apply isBareHash_of_not_startsIdent text ?_ alone
        rw [Bool.or_eq_true] at filled
        apply filled.resolve_right
        intro escape
        rw [startsIdent_of_startsEscape escape] at alone
        cases alone
      refine ⟨?_, bare⟩
      intro none
      cases alone : startsIdent text with
      | true => exact EscapedRun.value_name_ne_nil text alone none
      | false =>
          have short := bare alone
          rw [none] at short
          rcases short with ⟨c, rest, impossible, _⟩ | impossible | ⟨c, rest, impossible, _⟩
          all_goals cases impossible
  | case2 => exact Or.inl ⟨'#', rfl, rfl, rfl, rfl, by decide, rfl, rfl⟩

private theorem scanLiteral_isSpelled (first : Char) (rest : Text) (isMark : IsMark first) :
    (scanLiteral first rest).1.IsSpelled := by
  fun_cases scanLiteral first rest with
  | case1 => exact Or.inr (by decide)
  | case2 => exact Or.inr (by decide)
  | case3 _ _ pair =>
      simp only [List.mem_cons, List.not_mem_nil, or_false] at pair
      rcases pair.1 with rfl | rfl | rfl | rfl | rfl <;> exact Or.inr (by decide)
  | case4 => exact Or.inl ⟨first, rfl, isMark⟩

private theorem scanMark_isSpelled (first : Char) (rest : Text) (space : isSpace first = false)
    (start : isNameStart first = false) (digit : isDigit first = false) :
    (scanMark first rest).1.IsSpelled := by
  fun_cases scanMark first rest with
  | case1 => exact scanAt_isSpelled rest
  | case2 => exact scanHash_isSpelled rest
  | case3 => exact scanString_isSpelled first rest
  | case4 => exact scanComment_isSpelled _
  | case5 => trivial
  | case6 => trivial
  | case7 _ _ noQuote _ closing opening =>
      exact scanLiteral_isSpelled first rest
        ⟨space, start, digit, not_or.mp noQuote, opening, closing⟩

theorem scan_isSpelled (first : Char) (rest : Text) : (scan first rest).1.IsSpelled := by
  fun_cases scan first rest with
  | case1 text space =>
      refine ⟨?_, fun c member => List.mem_takeWhile_imp member⟩
      rw [List.takeWhile_cons, if_pos space]
      exact List.cons_ne_nil _ _
  | case2 => exact rangeSpelling_lt _
  | case3 => exact Or.inr (by decide)
  | case4 text _ _ _ starts => exact scanIdent_isSpelled text starts
  | case5 text _ _ _ _ some => exact scanNumeric_isSpelled text some
  | case6 text space _ _ alone none =>
      apply scanMark_isSpelled first rest (Bool.not_eq_true _ ▸ space)
      · rw [← Bool.not_eq_true]
        exact fun starts => alone (startsIdent_of_isNameStart starts rest)
      · rw [← Bool.not_eq_true]
        exact fun digit => none (numeralWidth_digit digit rest)

/-- Only the two letters of ASCII have this small letter. -/
theorem eq_u_of_toLower {c : Char} (small : c.toLower = 'u') : c = 'u' ∨ c = 'U' := by
  rcases (sameLetter_iff c 'u').mpr small with same | capital | capital
  · exact Or.inl same
  · have number : 117 = c.toNat + 32 := capital.2
    exact Or.inr (Char.toNat_inj.mp (by change c.toNat = 85; omega))
  · exact absurd capital.1.2 (by decide)

/-- An address begins with a letter or a backslash. -/
theorem isBlank_of_scan_url (first : Char) (rest : Text)
    (address : Kind.url ∈ (scan first rest).1.kinds) : Text.isBlank first = false := by
  have named := name_of_scan_url first rest address
  unfold EscapedRun.value EscapedRun.valueFrom at named
  by_cases escape : first = '\\'
  · subst escape
    rfl
  · rw [if_neg escape] at named
    split at named
    · have letter : first.toLower = 'u' := (List.cons.inj named).1
      rcases eq_u_of_toLower letter with rfl | rfl <;> rfl
    · cases named

end Lexeme

variable {text : Text} {position : Position}

/-- The lexeme that a token begins with is spelled so. -/
theorem Token.StandsIn.isSpelled {token : Token} (stands : token.StandsIn text) :
    token.first.IsSpelled := by
  obtain ⟨read, c, rest, _, plain, isFrom⟩ := stands
  have spelled := Lexeme.scan_isSpelled c rest
  have whole (leaf : Leaf) (here : leaf.IsSpelled) : leaf.lexeme.IsSpelled := by
    rcases leaf.lexeme_cases with same | ⟨bracket, rfl⟩
    · rw [same]
      exact here
    · cases here
  generalize (Lexeme.scan c rest).1 = lexeme at plain isFrom spelled
  cases isFrom with
  | leaf => exact whole _ spelled
  | brokenOff => exact whole _ spelled.1
  | breaking => exact whole _ spelled.2
  | comment => cases plain
  | opener => exact spelled
  | closer => trivial

/-- A bracket that closes nothing is left by a closing bracket. -/
theorem Lexeme.IsSpelled.eq_closer {placed : Position × Lexeme} {bracket : Bracket}
    (spelled : placed.2.IsSpelled)
    (isFrom : (Token.leaf position (.error (.unmatched bracket))).IsFrom placed) :
    placed.2 = .closer bracket := by
  cases isFrom with
  | leaf => cases spelled
  | brokenOff => cases spelled.1
  | breaking => cases spelled.2
  | closer => rfl

/-- Cutting comes to the place of an address, and the lexeme there begins with its name. -/
theorem Token.StandsIn.exists_cut_url {value : Text} {closed : Bool}
    (stands : (Token.leaf position (.url value closed)).StandsIn text) :
    ∃ read c rest, IsCut text read (c :: rest) ∧ position = Position.start.after read ∧
      Kind.url ∈ (Lexeme.scan c rest).1.kinds := by
  obtain ⟨read, c, rest, cut, _, isFrom⟩ := stands
  refine ⟨read, c, rest, cut, ?_⟩
  generalize (Lexeme.scan c rest).1 = lexeme at isFrom
  cases isFrom with
  | leaf => exact ⟨rfl, List.mem_cons_self⟩
  | brokenOff => exact ⟨rfl, List.mem_cons_self⟩

/-- The characters of the text from the place of an address on do not begin with a blank. -/
theorem Token.StandsIn.exists_text_eq {value : Text} {closed : Bool}
    (stands : (Token.leaf position (.url value closed)).StandsIn text) :
    ∃ read c rest, text = read ++ c :: rest ∧ position = Position.start.after read ∧
      Text.isBlank c = false := by
  obtain ⟨read, c, rest, cut, here, address⟩ := stands.exists_cut_url
  exact ⟨read, c, rest, cut.text_eq, here, Lexeme.isBlank_of_scan_url c rest address⟩

end SheetCensus.Css
